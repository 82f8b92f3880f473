import AthenaOS.Deflate.Inflate

/-!
# Deflate

The compressor of `ath_deflate`: greedy LZ77 over hash chains, one block under the fixed
Huffman codes, or stored blocks where that would be smaller.
-/

namespace AthenaOS.Deflate

open Lib Lib.Wire

/-! ## The bit writer -/

/-- `BitWriter`. -/
structure BitWriter where
  out : ByteString
  bitBuf : Nat
  bitCnt : Nat

namespace BitWriter

/-- `BitWriter::new`. -/
def new : BitWriter := ⟨[], 0, 0⟩

/-- The loop of `push_bits` that writes full bytes. -/
def flush (bw : BitWriter) : BitWriter :=
  if 8 ≤ bw.bitCnt then
    flush ⟨bw.out ++ [UInt8.ofNat bw.bitBuf], bw.bitBuf / 256, bw.bitCnt - 8⟩
  else bw
termination_by bw.bitCnt

/-- `push_bits`: the low `n` bits of `value`, the lowest first. The buffer is a `u32`. -/
def pushBits (bw : BitWriter) (value n : Nat) : BitWriter :=
  flush { bw with
    bitBuf := bw.bitBuf ||| ((value % 2 ^ n) <<< bw.bitCnt) % 2 ^ 32
    bitCnt := bw.bitCnt + n }

/-- `rev`: the `len` bits of a code in the other order. -/
def reverseCode (code len : Nat) : Nat :=
  (List.range len).foldl (fun rev i => rev ||| ((code >>> i) % 2) <<< (len - 1 - i)) 0

/-- `push_code`: a Huffman code, the highest bit first. -/
def pushCode (bw : BitWriter) (code : Nat × Nat) : BitWriter :=
  bw.pushBits (reverseCode code.1 code.2) code.2

/-- `align_to_byte`. -/
def alignToByte (bw : BitWriter) : BitWriter :=
  if 0 < bw.bitCnt then ⟨bw.out ++ [UInt8.ofNat bw.bitBuf], 0, 0⟩ else bw

/-- `finish`. -/
def finish (bw : BitWriter) : ByteString :=
  if 0 < bw.bitCnt then bw.out ++ [UInt8.ofNat bw.bitBuf] else bw.out

end BitWriter

/-! ## Codes and symbols -/

/-- `fixed_litlen_code`: code and length. -/
def fixedLitlenCode (sym : Nat) : Nat × Nat :=
  if sym ≤ 143 then (0x30 + sym, 8)
  else if sym ≤ 255 then (0x190 + (sym - 144), 9)
  else if sym ≤ 279 then (sym - 256, 7)
  else (0xC0 + (sym - 280), 8)

/-- `fixed_dist_code`. -/
def fixedDistCode (sym : Nat) : Nat × Nat := (sym, 5)

/-- `while idx + 1 < base.len() { if value < base[idx + 1] { break } idx += 1 }`. -/
def baseIndex (value : Nat) : List Nat → Nat
  | _ :: b :: base => if value < b then 0 else baseIndex value (b :: base) + 1
  | _ => 0

/-- `length_to_symbol`: symbol, number of extra bits, extra bits. -/
def lengthToSymbol (len : Nat) : Nat × Nat × Nat :=
  let idx := baseIndex (len % 2 ^ 16) lengthBase
  (257 + idx, lengthExtra.getD idx 0, len - lengthBase.getD idx 0)

/-- `distance_to_symbol`. -/
def distanceToSymbol (dist : Nat) : Nat × Nat × Nat :=
  let idx := baseIndex (dist % 2 ^ 16) distBase
  (idx, distExtra.getD idx 0, dist - distBase.getD idx 0)

/-! ## The match finder -/

/-- `WINDOW`. -/
def window : Nat := 32768

/-- `MIN_MATCH`. -/
def minMatch : Nat := 3

/-- `MAX_MATCH`. -/
def maxMatch : Nat := 258

/-- `MAX_CHAIN`. -/
def maxChain : Nat := 128

/-- `hash3`, on a 64-bit `usize`. -/
def hash3 (data : ByteString) (pos : Nat) : Nat :=
  let a := (data.getD pos 0).toNat
  let b := (data.getD (pos + 1) 0).toNat
  let c := (data.getD (pos + 2) 0).toNat
  (((a <<< 10) ^^^ (b <<< 5) ^^^ c) * 2654435761) % 2 ^ 64 / 2 ^ 17 % 2 ^ 15

/-- `Token`. -/
inductive Token where
  | literal (b : UInt8)
  | match (length distance : Nat)
  deriving DecidableEq, Repr

/-- The hash table: the latest position of each hash, and before a position (modulo the
window) the one before it. `none` is `NIL`. -/
structure Chains where
  head : Nat → Option Nat
  prev : Nat → Option Nat

namespace Chains

def empty : Chains := ⟨fun _ => none, fun _ => none⟩

/-- `prev[pos % WINDOW] = head[h]; head[h] = pos`. -/
def insert (c : Chains) (data : ByteString) (pos : Nat) : Chains where
  head := Function.update c.head (hash3 data pos) (some pos)
  prev := Function.update c.prev (pos % window) (c.head (hash3 data pos))

/-- `while pos < end && pos + MIN_MATCH <= n { .. }`, with `count` positions to go. -/
def insertFrom (c : Chains) (data : ByteString) (pos : Nat) : Nat → Chains
  | 0 => c
  | count + 1 =>
    if pos + minMatch ≤ data.length then insertFrom (c.insert data pos) data (pos + 1) count else c

end Chains

/-- `while len < max_len && data[candidate + len] == data[pos + len] { len += 1 }`, with
`count` bytes to go. -/
def matchLength (data : ByteString) (candidate pos len : Nat) : Nat → Nat
  | 0 => len
  | count + 1 =>
    if data.getD (candidate + len) 0 = data.getD (pos + len) 0 then
      matchLength data candidate pos (len + 1) count
    else len

/-- The walk along a chain: the length and the distance of the longest match, with `chain`
more candidates allowed. -/
def longestMatch (data : ByteString) (prev : Nat → Option Nat) (pos maxLen : Nat) :
    Nat → Option Nat → Nat × Nat → Nat × Nat
  | 0, _, best => best
  | _ + 1, none, best => best
  | chain + 1, some candidate, best =>
    if pos - window ≤ candidate then
      let len := matchLength data candidate pos 0 maxLen
      if best.1 < len then
        if maxLen ≤ len then (len, pos - candidate)
        else longestMatch data prev pos maxLen chain (prev (candidate % window)) (len, pos - candidate)
      else longestMatch data prev pos maxLen chain (prev (candidate % window)) best
    else best

/-- The best match at a position. -/
def bestMatch (data : ByteString) (c : Chains) (pos : Nat) : Nat × Nat :=
  longestMatch data c.prev pos (min (data.length - pos) maxMatch) maxChain
    (c.head (hash3 data pos)) (0, 0)

/-- The loop of `lz77_tokens`. -/
def lz77From (data : ByteString) (c : Chains) (pos : Nat) : List Token :=
  if pos < data.length then
    if data.length < pos + minMatch then
      .literal (data.getD pos 0) :: lz77From data c (pos + 1)
    else
      let c' := c.insert data pos
      if minMatch ≤ (bestMatch data c pos).1 then
        .match (bestMatch data c pos).1 (bestMatch data c pos).2 ::
          lz77From data (c'.insertFrom data (pos + 1) ((bestMatch data c pos).1 - 1))
            (pos + (bestMatch data c pos).1)
      else .literal (data.getD pos 0) :: lz77From data c' (pos + 1)
  else []
termination_by data.length - pos
decreasing_by
  · omega
  · have : minMatch = 3 := rfl
    omega
  · omega

/-- `lz77_tokens`. -/
def lz77Tokens (data : ByteString) : List Token :=
  if data.length < minMatch then data.map .literal else lz77From data .empty 0

/-! ## Blocks -/

/-- `emit_fixed_tokens`, one token. -/
def emitFixedToken (bw : BitWriter) : Token → BitWriter
  | .literal b => bw.pushCode (fixedLitlenCode b.toNat)
  | .match length distance =>
    let (lsym, lextraBits, lextraVal) := lengthToSymbol length
    let bw := bw.pushCode (fixedLitlenCode lsym)
    let bw := if 0 < lextraBits then bw.pushBits lextraVal lextraBits else bw
    let (dsym, dextraBits, dextraVal) := distanceToSymbol distance
    let bw := bw.pushCode (fixedDistCode dsym)
    if 0 < dextraBits then bw.pushBits dextraVal dextraBits else bw

/-- `emit_fixed_tokens`. -/
def emitFixedTokens (bw : BitWriter) (tokens : List Token) : BitWriter :=
  tokens.foldl emitFixedToken bw

/-- `fixed_block_bits`. -/
def fixedBlockBits (tokens : List Token) : Nat :=
  tokens.foldl (fun bits token =>
    match token with
    | .literal b => bits + (fixedLitlenCode b.toNat).2
    | .match length distance =>
      bits + (fixedLitlenCode (lengthToSymbol length).1).2 + (lengthToSymbol length).2.1 +
        (5 + (distanceToSymbol distance).2.1)) 0 + 7

/-- `write_stored_block`. -/
def writeStoredBlock (bw : BitWriter) (chunk : ByteString) (finalBlock : Bool) : BitWriter :=
  let bw := ((bw.pushBits (if finalBlock then 1 else 0) 1).pushBits 0 2).alignToByte
  let len := chunk.length % 2 ^ 16
  { bw with out := bw.out ++ (leBytes 2 len ++ leBytes 2 (0xFFFF - len) ++ chunk) }

/-- `STORED_CHUNK`. -/
def storedChunk : Nat := 65535

/-- `data.chunks(STORED_CHUNK)`. -/
def chunks (data : ByteString) : List ByteString :=
  if 0 < data.length then data.take storedChunk :: chunks (data.drop storedChunk) else []
termination_by data.length
decreasing_by
  rw [List.length_drop, storedChunk]
  omega

/-- The loop over the chunks; the last one is final. -/
def writeStoredBlocks (bw : BitWriter) : List ByteString → BitWriter
  | [] => bw
  | [chunk] => writeStoredBlock bw chunk true
  | chunk :: chunks => writeStoredBlocks (writeStoredBlock bw chunk false) chunks

/-- One final block under the fixed codes. -/
def fixedBlock (tokens : List Token) : ByteString :=
  let bw := (BitWriter.new.pushBits 1 1).pushBits 1 2
  ((emitFixedTokens bw tokens).pushCode (fixedLitlenCode 256)).finish

/-- `deflate`. -/
def deflate (data : ByteString) : ByteString :=
  if data = [] then fixedBlock []
  else
    let tokens := lz77Tokens data
    let fixedBytes := (fixedBlockBits tokens + 3 + 7) / 8
    let nChunks := max ((data.length + (storedChunk - 1)) / storedChunk) 1
    let storedBytes := data.length + nChunks * 5
    if fixedBytes ≤ storedBytes then fixedBlock tokens
    else (writeStoredBlocks BitWriter.new (chunks data)).finish

/-- Three bytes twice: three literals and a match. -/
example : lz77Tokens [1, 2, 3, 1, 2, 3] = [.literal 1, .literal 2, .literal 3, .match 3 3] := by
  decide +kernel

end AthenaOS.Deflate
