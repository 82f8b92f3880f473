import AthenaOS.Lib.Bytes
import AthenaOS.Lib.Checked
import AthenaOS.Lib.Utf8

/-!
# The WireGuard handshake

`kernel/src/wireguard.rs`: the tunnel registry and both parties of the Noise IKpsk2 handshake.

- `Crypto`: what the handshake takes from `crate::crypto`. The hash, the HMAC and the keyed hash
  are any functions; `Crypto.Lawful` is what the handshake relies on.
- `mixHash`, `kdf1`..`kdf3`, `aeadEncrypt`, `computeMac1`: the primitives over it.

The random bytes and the time stamp counter that a call reads are its arguments.
-/

namespace AthenaOS.WireGuard

open Lib Lib.Wire

/-- `[u8; 32]`: keys, hashes and public keys. -/
abbrev Key : Type := Bytes 32

/-! ## Primitives -/

/-- The functions of `crate::crypto`. `encrypt` and `decrypt` take the key, the nonce and the
associated data; a cipher text is as long as its plain text. -/
structure Crypto where
  blake2s : ByteString → Key
  hmac : ByteString → ByteString → Key
  keyed : Key → ByteString → Bytes 16
  encrypt : Key → Bytes 12 → ByteString → {n : Nat} → Bytes n → Bytes n × Bytes 16
  decrypt : Key → Bytes 12 → ByteString → {n : Nat} → Bytes n → Bytes 16 → Option (Bytes n)
  sharedSecret : Key → Key → Option Key
  publicKey : Key → Key

/-- Both sides of an exchange compute the same secret, and decryption inverts encryption. -/
structure Crypto.Lawful (c : Crypto) : Prop where
  sharedSecret_isSome : ∀ a b, (c.sharedSecret a (c.publicKey b)).isSome
  sharedSecret_comm : ∀ a b, c.sharedSecret a (c.publicKey b) = c.sharedSecret b (c.publicKey a)
  decrypt_encrypt : ∀ key nonce aad {n : Nat} (pt : Bytes n),
    c.decrypt key nonce aad (c.encrypt key nonce aad pt).1 (c.encrypt key nonce aad pt).2 = some pt

def construction : ByteString := utf8 "Noise_IKpsk2_25519_ChaChaPoly_BLAKE2s"

def identifier : ByteString := utf8 "WireGuard v1 zx2c4 Jason@zx2c4.com"

def labelMac1 : ByteString := utf8 "mac1----"

section Primitives

variable (c : Crypto)

def noiseHash (input : ByteString) : Key := c.blake2s input

/-- `h ← HASH(h ‖ data)`. -/
def mixHash (h : Key) (data : ByteString) : Key := c.blake2s (h.toList ++ data)

def kdf1 (key : Key) (input : ByteString) : Key :=
  let t0 := c.hmac key.toList input
  c.hmac t0.toList [0x1]

def kdf2 (key : Key) (input : ByteString) : Key × Key :=
  let t0 := c.hmac key.toList input
  let t1 := c.hmac t0.toList [0x1]
  let t2 := c.hmac t0.toList (t1.toList ++ [0x2])
  (t1, t2)

def kdf3 (key : Key) (input : ByteString) : Key × Key × Key :=
  let t0 := c.hmac key.toList input
  let t1 := c.hmac t0.toList [0x1]
  let t2 := c.hmac t0.toList (t1.toList ++ [0x2])
  let t3 := c.hmac t0.toList (t2.toList ++ [0x3])
  (t1, t2, t3)

/-- Four zero bytes, then the counter. -/
def wgNonce (counter : UInt64) : Bytes 12 := (Bytes.zero : Bytes 12).putLE 4 8 counter.toNat

/-- The cipher text, then its tag. -/
def aeadEncrypt (key : Key) (counter : UInt64) {n : Nat} (plaintext : Bytes n) (aad : ByteString) :
    Bytes (n + 16) :=
  let sealed := c.encrypt key (wgNonce counter) aad plaintext
  ((Bytes.zero : Bytes (n + 16)).splice 0 sealed.1).splice n sealed.2

def aeadDecrypt (key : Key) (counter : UInt64) {n : Nat} (data : Bytes n) (aad : ByteString) :
    Except String ByteString :=
  if n < 16 then .error "AEAD ciphertext too short"
  else
    let ct : Bytes (n - 16) := data.slice 0
    let tag : Bytes 16 := data.slice (n - 16)
    match c.decrypt key (wgNonce counter) aad ct tag with
    | some pt => .ok pt.toList
    | none => .error "AEAD auth failed"

def dh (priv peerPublic : Key) : Except String Key :=
  match c.sharedSecret priv peerPublic with
  | some out => .ok out
  | none => .error "DH failed"

def dhPublic (priv : Key) : Key := c.publicKey priv

def computeMac1 (receiverStaticPub : Key) (msgPrefix : ByteString) : Bytes 16 :=
  let key := c.blake2s (labelMac1 ++ receiverStaticPub.toList)
  c.keyed key msgPrefix

def macsEqual (a : ByteString) (b : Bytes 16) : Bool :=
  if a.length ≠ 16 then false
  else (List.range 16).foldl (fun diff i => diff ||| (a.getD i 0 ^^^ b.get i)) 0 == 0

/-- The chaining key and the hash both parties start from. -/
def handshakeInitial (responderStaticPub : Key) : Key × Key :=
  let chainingKey := noiseHash c construction
  let hash := c.blake2s (chainingKey.toList ++ identifier)
  (chainingKey, mixHash c hash responderStaticPub.toList)

end Primitives

/-- The time stamp, from the time stamp counter. -/
def tai64nNow (tsc : UInt64) : Bytes 12 :=
  let secs := (0x4000000000000000 : UInt64) ||| (tsc >>> 30)
  let nanos : UInt32 := (tsc &&& 0x3FFFFFFF).toUInt32
  Bytes.ofList ((leBytes 8 secs.toNat).reverse ++ (leBytes 4 nanos.toNat).reverse)

/-! ## The registry -/

inductive HandshakeState where
  | idle | initiated | confirmed | rekeying | failed
  deriving DecidableEq

/-- A tunnel: its keys and the state of its handshake. -/
structure Tunnel where
  peerStatic : Key
  localStatic : Key
  presharedKey : Key
  state : HandshakeState
  lastHandshakeTsc : UInt64
  chainingKey : Key
  handshakeHash : Key
  ephemeralPriv : Key
  ephemeralPub : Key
  sendKey : Key
  recvKey : Key

structure Registry where
  tunnels : UInt64 → Option Tunnel
  handshakesAttempted : UInt64
  handshakesSucceeded : UInt64

/-- `REG`: nothing before `init`. -/
abbrev Reg : Type := Option Registry

/-- The tunnel with this id. -/
def Reg.tunnel (s : Reg) (id : UInt64) : Option Tunnel := s.bind fun r => r.tunnels id

/-- A call on the registry. -/
abbrev Op (α : Type) : Type := Checked String Reg α

/-- `REG.lock().as_mut()` and `tunnels.get_mut(&id)`. -/
def lookup (id : UInt64) : Op (Registry × Tunnel) := do
  let s ← Checked.read
  let r ← Checked.okOr s "registry not initialized"
  let t ← Checked.okOr (r.tunnels id) "no such tunnel"
  return (r, t)

/-! ## The initiator -/

/-- `drive_initiation`: the initiation message, and the state to finish the handshake with.
`entropy` is what `getrandom` gives. -/
def driveInitiation (c : Crypto) (entropy : Option Key) (tsc : UInt64) (id : UInt64) : Op (Bytes 148) := do
  let (r, t) ← lookup id
  Checked.require (t.state = .idle ∨ t.state = .failed) "handshake already in progress"
  let responderStatic := t.peerStatic
  let initiatorStaticPub := dhPublic c t.localStatic
  let (chainingKey, hash) := handshakeInitial c responderStatic
  let ephPriv ← Checked.okOr entropy "entropy exhaustion"
  let ephPub := dhPublic c ephPriv
  let msg : Bytes 148 := (Bytes.zero : Bytes 148).splice 0 (fun _ => 0x01 : Bytes 1)
  let senderIndex : UInt32 := id.toUInt32 ^^^ 0x10000000
  let msg := msg.putLE 4 4 senderIndex.toNat
  let msg := msg.splice 8 ephPub
  let hash := mixHash c hash ephPub.toList
  let chainingKey := kdf1 c chainingKey ephPub.toList
  -- the static key, under DH(e_i, S_r)
  let es ← Checked.ofExcept (dh c ephPriv responderStatic)
  let (chainingKey, key) := kdf2 c chainingKey es.toList
  let encStatic : Bytes 48 := aeadEncrypt c key 0 initiatorStaticPub hash.toList
  let msg := msg.splice 40 encStatic
  let hash := mixHash c hash encStatic.toList
  -- the time stamp, under DH(S_i, S_r)
  let ss ← Checked.ofExcept (dh c t.localStatic responderStatic)
  let (chainingKey, keyTs) := kdf2 c chainingKey ss.toList
  let encTs : Bytes 28 := aeadEncrypt c keyTs 0 (tai64nNow tsc) hash.toList
  let msg := msg.splice 88 encTs
  let hash := mixHash c hash encTs.toList
  let mac1 := computeMac1 c responderStatic (msg.slice 0 : Bytes 116).toList
  let msg := msg.splice 116 mac1
  Checked.write fun _ => some { r with
    tunnels := Function.update r.tunnels id (some { t with
      ephemeralPriv := ephPriv
      ephemeralPub := ephPub
      chainingKey := chainingKey
      handshakeHash := hash
      state := .initiated })
    handshakesAttempted := r.handshakesAttempted + 1 }
  return msg

/-- `handle_response`: the responder's message ends the handshake. -/
def handleResponse (c : Crypto) (tsc : UInt64) (id : UInt64) (response : ByteString) : Op Unit := do
  Checked.require (response.length = 92) "response must be 92 bytes"
  let resp : Bytes 92 := Bytes.ofList response
  Checked.require (resp.get 0 = 0x02) "not a Response message"
  let (r, t) ← lookup id
  Checked.require (t.state = .initiated) "not in Initiated state"
  let initiatorStaticPub := dhPublic c t.localStatic
  let wantMac1 := computeMac1 c initiatorStaticPub (resp.slice 0 : Bytes 60).toList
  Checked.require (macsEqual (resp.slice 60 : Bytes 16).toList wantMac1) "response mac1 invalid"
  let peerEphemeral : Key := resp.slice 12
  let hash := mixHash c t.handshakeHash peerEphemeral.toList
  let chainingKey := kdf1 c t.chainingKey peerEphemeral.toList
  -- DH(e_i, e_r), DH(S_i, e_r), then the pre-shared key
  let ee ← Checked.ofExcept (dh c t.ephemeralPriv peerEphemeral)
  let chainingKey := kdf1 c chainingKey ee.toList
  let se ← Checked.ofExcept (dh c t.localStatic peerEphemeral)
  let chainingKey := kdf1 c chainingKey se.toList
  let (chainingKey, tau, keyNothing) := kdf3 c chainingKey t.presharedKey.toList
  let hash := mixHash c hash tau.toList
  let pt ← Checked.ofExcept (aeadDecrypt c keyNothing 0 (resp.slice 44 : Bytes 16) hash.toList)
  Checked.require pt.isEmpty "encrypted_nothing not empty"
  let (sendKey, recvKey) := kdf2 c chainingKey []
  Checked.write fun _ => some { r with
    tunnels := Function.update r.tunnels id (some { t with
      sendKey := sendKey
      recvKey := recvKey
      state := .confirmed
      lastHandshakeTsc := tsc })
    handshakesSucceeded := r.handshakesSucceeded + 1 }
  return ()

def resetToIdle (id : UInt64) : Op Unit := do
  let (r, t) ← lookup id
  Checked.write fun _ => some { r with
    tunnels := Function.update r.tunnels id (some { t with state := .idle }) }
  return ()

/-! ## The responder -/

structure ResponderHandshake where
  response : Bytes 92
  sendKey : Key
  recvKey : Key
  peerStaticPub : Key

/-- `responder_consume_initiation`. -/
def responderConsumeInitiation (c : Crypto) (responderStaticPriv presharedKey : Key)
    (initMsg : ByteString) (respEphemeralPriv : Key) (responderSenderIndex : UInt32) :
    Except String ResponderHandshake := do
  if initMsg.length ≠ 148 then throw "initiation must be 148 bytes"
  let msg : Bytes 148 := Bytes.ofList initMsg
  if msg.get 0 ≠ 0x01 then throw "not an Initiation message"
  let responderStaticPub := dhPublic c responderStaticPriv
  let wantMac1 := computeMac1 c responderStaticPub (msg.slice 0 : Bytes 116).toList
  if !macsEqual (msg.slice 116 : Bytes 16).toList wantMac1 then throw "initiation mac1 invalid"
  let (chainingKey, hash) := handshakeInitial c responderStaticPub
  let ephPubI : Key := msg.slice 8
  let hash := mixHash c hash ephPubI.toList
  let chainingKey := kdf1 c chainingKey ephPubI.toList
  -- the static key, under DH(S_r, e_i)
  let es ← dh c responderStaticPriv ephPubI
  let (chainingKey, key) := kdf2 c chainingKey es.toList
  let ptStatic ← aeadDecrypt c key 0 (msg.slice 40 : Bytes 48) hash.toList
  if ptStatic.length ≠ 32 then throw "decrypted static wrong length"
  let peerStaticPub : Key := Bytes.ofList ptStatic
  let hash := mixHash c hash (msg.slice 40 : Bytes 48).toList
  -- the time stamp, under DH(S_r, S_i)
  let ss ← dh c responderStaticPriv peerStaticPub
  let (chainingKey, keyTs) := kdf2 c chainingKey ss.toList
  let _timestamp ← aeadDecrypt c keyTs 0 (msg.slice 88 : Bytes 28) hash.toList
  let hash := mixHash c hash (msg.slice 88 : Bytes 28).toList
  -- the response
  let ephPubR := dhPublic c respEphemeralPriv
  let receiverIndex := msg.getLE 4 4
  let resp : Bytes 92 := (Bytes.zero : Bytes 92).splice 0 (fun _ => 0x02 : Bytes 1)
  let resp := resp.putLE 4 4 responderSenderIndex.toNat
  let resp := resp.putLE 8 4 receiverIndex
  let resp := resp.splice 12 ephPubR
  let hash := mixHash c hash ephPubR.toList
  let chainingKey := kdf1 c chainingKey ephPubR.toList
  -- DH(e_r, e_i), DH(e_r, S_i), then the pre-shared key
  let ee ← dh c respEphemeralPriv ephPubI
  let chainingKey := kdf1 c chainingKey ee.toList
  let se ← dh c respEphemeralPriv peerStaticPub
  let chainingKey := kdf1 c chainingKey se.toList
  let (chainingKey, tau, keyNothing) := kdf3 c chainingKey presharedKey.toList
  let hash := mixHash c hash tau.toList
  let encNothing : Bytes 16 := aeadEncrypt c keyNothing 0 (Bytes.zero : Bytes 0) hash.toList
  let resp := resp.splice 44 encNothing
  let mac1 := computeMac1 c peerStaticPub (resp.slice 0 : Bytes 60).toList
  let resp := resp.splice 60 mac1
  let (recvKey, sendKey) := kdf2 c chainingKey []
  return ⟨resp, sendKey, recvKey, peerStaticPub⟩

/-! ## Sequences of calls -/

/-- A call of the initiator's interface, with what it reads from the machine. -/
inductive Call where
  | driveInitiation (entropy : Option Key) (tsc : UInt64) (id : UInt64)
  | handleResponse (tsc : UInt64) (id : UInt64) (response : ByteString)
  | resetToIdle (id : UInt64)

/-- The registry after a call. -/
def Call.apply (c : Crypto) (s : Reg) : Call → Reg
  | .driveInitiation entropy tsc id => ((WireGuard.driveInitiation c entropy tsc id).exec s).2
  | .handleResponse tsc id response => ((WireGuard.handleResponse c tsc id response).exec s).2
  | .resetToIdle id => ((WireGuard.resetToIdle id).exec s).2

/-- The registry after a sequence of calls. -/
def run (c : Crypto) (s : Reg) (calls : List Call) : Reg := calls.foldl (Call.apply c) s

end AthenaOS.WireGuard
