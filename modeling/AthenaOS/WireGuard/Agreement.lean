import AthenaOS.WireGuard.Handshake

/-!
# Both parties of the handshake agree

A handshake is one transcript: a chaining key and a hash, mixed with the public values and the
shared secrets in a fixed order. Each party is shown to compute it from its own secrets.
-/

namespace AthenaOS.WireGuard

open Lib Lib.Wire

/-! ## The transcript -/

/-- The transcript of an initiation. -/
structure Opening where
  encStatic : Bytes 48
  encTs : Bytes 28
  chainingKey : Key
  hash : Key

/-- The transcript of an initiation to `rPub` by `iPub` with the ephemeral `ePub`, given the
secrets `es` and `ss`. -/
def opening (c : Crypto) (rPub iPub ePub es ss : Key) (timestamp : Bytes 12) : Opening :=
  let hash := mixHash c (handshakeInitial c rPub).2 ePub.toList
  let chainingKey := kdf1 c (handshakeInitial c rPub).1 ePub.toList
  let first := kdf2 c chainingKey es.toList
  let encStatic : Bytes 48 := aeadEncrypt c first.2 0 iPub hash.toList
  let hash := mixHash c hash encStatic.toList
  let second := kdf2 c first.1 ss.toList
  let encTs : Bytes 28 := aeadEncrypt c second.2 0 timestamp hash.toList
  ⟨encStatic, encTs, second.1, mixHash c hash encTs.toList⟩

/-- The transcript of a response. -/
structure Closing where
  encNothing : Bytes 16
  chainingKey : Key

/-- The transcript of a response with the ephemeral `ePub`, given the secrets `ee`, `se` and
`psk`. -/
def closing (c : Crypto) (o : Opening) (ePub ee se psk : Key) : Closing :=
  let hash := mixHash c o.hash ePub.toList
  let chainingKey := kdf1 c o.chainingKey ePub.toList
  let chainingKey := kdf1 c chainingKey ee.toList
  let chainingKey := kdf1 c chainingKey se.toList
  let mixed := kdf3 c chainingKey psk.toList
  let hash := mixHash c hash mixed.2.1.toList
  ⟨aeadEncrypt c mixed.2.2 0 (Bytes.zero : Bytes 0) hash.toList, mixed.1⟩

/-- The message is an initiation to `rPub` with this transcript. -/
structure Carries (c : Crypto) (rPub ePub : Key) (o : Opening) (msg : Bytes 148) : Prop where
  kind : msg.get 0 = 0x01
  ephemeral : msg.slice 8 = ePub
  encStatic : msg.slice 40 = o.encStatic
  encTs : msg.slice 88 = o.encTs
  mac1 : msg.slice 116 = computeMac1 c rPub (msg.slice 0 : Bytes 116).toList

/-- The message is a response to `iPub` with this transcript. -/
structure Answers (c : Crypto) (iPub ePub : Key) (cl : Closing) (resp : Bytes 92) : Prop where
  kind : resp.get 0 = 0x02
  ephemeral : resp.slice 12 = ePub
  encNothing : resp.slice 44 = cl.encNothing
  mac1 : resp.slice 60 = computeMac1 c iPub (resp.slice 0 : Bytes 60).toList

/-! ## Primitives -/

theorem macsEqual_self (mac : Bytes 16) : macsEqual mac.toList mac = true := by
  have hbytes : ∀ i ∈ List.range 16, mac.toList.getD i 0 ^^^ mac.get i = 0 := by
    intro i hi
    rw [List.mem_range] at hi
    rw [Bytes.get_of_lt _ hi, Bytes.toList, List.getD_eq_getElem _ _ (by simpa using hi),
      List.getElem_ofFn, UInt8.xor_self]
  have hfold : ∀ is : List Nat, (∀ i ∈ is, mac.toList.getD i 0 ^^^ mac.get i = 0) →
      is.foldl (fun diff i => diff ||| (mac.toList.getD i 0 ^^^ mac.get i)) 0 = 0 := by
    intro is his
    induction is with
    | nil => rfl
    | cons i is ih =>
      rw [List.foldl_cons, his i List.mem_cons_self, UInt8.or_self]
      exact ih fun j hj => his j (List.mem_cons_of_mem _ hj)
  rw [macsEqual, if_neg (by simp), hfold _ hbytes]
  rfl

section Laws

variable {c : Crypto} (hc : c.Lawful)
include hc

theorem aeadDecrypt_aeadEncrypt (key : Key) (counter : UInt64) {n : Nat} (plaintext : Bytes n)
    (aad : ByteString) :
    aeadDecrypt c key counter (aeadEncrypt c key counter plaintext aad) aad = .ok plaintext.toList := by
  have hct : ((aeadEncrypt c key counter plaintext aad).slice 0 : Bytes n) =
      (c.encrypt key (wgNonce counter) aad plaintext).1 := by
    rw [aeadEncrypt, Bytes.slice_splice_of_disjoint _ _ (.inl (by omega)),
      Bytes.slice_splice_self _ _ (by omega)]
  have htag : ((aeadEncrypt c key counter plaintext aad).slice n : Bytes 16) =
      (c.encrypt key (wgNonce counter) aad plaintext).2 := by
    rw [aeadEncrypt, Bytes.slice_splice_self _ _ (Nat.le_refl _)]
  have hopen : c.decrypt key (wgNonce counter) aad
      ((aeadEncrypt c key counter plaintext aad).slice 0 : Bytes n)
      ((aeadEncrypt c key counter plaintext aad).slice n) = some plaintext := by
    rw [hct, htag, hc.decrypt_encrypt]
  -- the cipher text is `n + 16 - 16` bytes long, which computes to `n`
  have hdec : c.decrypt key (wgNonce counter) aad
      ((aeadEncrypt c key counter plaintext aad).slice 0 : Bytes (n + 16 - 16))
      ((aeadEncrypt c key counter plaintext aad).slice (n + 16 - 16)) = some plaintext := hopen
  rw [aeadDecrypt, if_neg (by omega)]
  dsimp only
  rw [hdec]

/-- Both parties get the same secret. -/
theorem dh_agree (a b : Key) : ∃ s, dh c a (dhPublic c b) = .ok s ∧ dh c b (dhPublic c a) = .ok s := by
  obtain ⟨s, hs⟩ := Option.isSome_iff_exists.mp (hc.sharedSecret_isSome a b)
  have hs' := (hc.sharedSecret_comm a b).symm.trans hs
  refine ⟨s, ?_, ?_⟩
  · rw [dh, dhPublic, hs]
  · rw [dh, dhPublic, hs']

end Laws

/-! ## The parties -/

section Parties

variable {c : Crypto} {s s' : Reg} {id tsc : UInt64} {t : Tunnel} {entropy : Option Key}

theorem lookup_eq_ok {r : Registry} (h : (lookup id).exec s = (.ok (r, t), s')) :
    s = some r ∧ r.tunnels id = some t ∧ s' = s := by
  obtain ⟨_, s₁, hread, h₁⟩ := Checked.bind_eq_ok h
  obtain ⟨hs, rfl⟩ := Prod.mk.inj hread
  obtain rfl := Except.ok.inj hs
  obtain ⟨r', s₂, hr, h₂⟩ := Checked.bind_eq_ok h₁
  obtain ⟨rfl, rfl⟩ := Checked.okOr_eq_ok hr
  obtain ⟨t', s₃, ht, h₃⟩ := Checked.bind_eq_ok h₂
  obtain ⟨ht', rfl⟩ := Checked.okOr_eq_ok ht
  obtain ⟨hpair, rfl⟩ := Prod.mk.inj h₃
  obtain ⟨rfl, rfl⟩ := Prod.mk.inj (Except.ok.inj hpair)
  exact ⟨rfl, ht', rfl⟩

theorem lookup_exec {r : Registry} (ht : r.tunnels id = some t) :
    (lookup id).exec (some r) = (.ok (r, t), some r) := by
  rw [lookup, Checked.bind_ok Checked.exec_read]
  show (Checked.okOr (r.tunnels id) "no such tunnel" >>= fun t => pure (r, t)).exec (some r) = _
  rw [ht]
  rfl

/-- **A tunnel's initiation** carries the transcript of the tunnel's keys, which the tunnel keeps
the end of. -/
theorem driveInitiation_spec {msg : Bytes 148}
    (h : (driveInitiation c entropy tsc id).exec s = (.ok msg, s')) (ht : s.tunnel id = some t) :
    ∃ ePriv es ss, dh c ePriv t.peerStatic = .ok es ∧ dh c t.localStatic t.peerStatic = .ok ss ∧
      let o := opening c t.peerStatic (dhPublic c t.localStatic) (dhPublic c ePriv) es ss (tai64nNow tsc)
      Carries c t.peerStatic (dhPublic c ePriv) o msg ∧ s'.tunnel id = some { t with
        ephemeralPriv := ePriv
        ephemeralPub := dhPublic c ePriv
        chainingKey := o.chainingKey
        handshakeHash := o.hash
        state := .initiated } := by
  obtain ⟨⟨r, t'⟩, s₁, hlookup, h₁⟩ := Checked.bind_eq_ok h
  obtain ⟨rfl, ht', rfl⟩ := lookup_eq_ok hlookup
  obtain rfl := Option.some.inj (ht'.symm.trans ht)
  obtain ⟨_, s₂, hstate, h₂⟩ := Checked.bind_eq_ok h₁
  obtain ⟨-, rfl⟩ := Checked.require_eq_ok hstate
  obtain ⟨ePriv, s₃, hentropy, h₃⟩ := Checked.bind_eq_ok h₂
  obtain ⟨-, rfl⟩ := Checked.okOr_eq_ok hentropy
  obtain ⟨es, s₄, hes, h₄⟩ := Checked.bind_eq_ok h₃
  obtain ⟨hes', rfl⟩ := Checked.ofExcept_eq_ok hes
  obtain ⟨ss, s₅, hss, h₅⟩ := Checked.bind_eq_ok h₄
  obtain ⟨hss', rfl⟩ := Checked.ofExcept_eq_ok hss
  obtain ⟨hmsg, rfl⟩ := Prod.mk.inj h₅
  obtain rfl := Except.ok.inj hmsg
  refine ⟨ePriv, es, ss, hes', hss', ⟨?_, ?_, ?_, ?_, ?_⟩, ?_⟩
  · rw [Bytes.get_splice_of_ne _ _ (by omega), Bytes.get_splice_of_ne _ _ (by omega),
      Bytes.get_splice_of_ne _ _ (by omega), Bytes.get_splice_of_ne _ _ (by omega),
      Bytes.get_putLE_of_ne _ (by omega)]
    rfl
  · rw [Bytes.slice_splice_of_disjoint _ _ (by omega), Bytes.slice_splice_of_disjoint _ _ (by omega),
      Bytes.slice_splice_of_disjoint _ _ (by omega), Bytes.slice_splice_self _ _ (by omega)]
  · rw [Bytes.slice_splice_of_disjoint _ _ (by omega), Bytes.slice_splice_of_disjoint _ _ (by omega),
      Bytes.slice_splice_self _ _ (by omega)]
    rfl
  · rw [Bytes.slice_splice_of_disjoint _ _ (by omega), Bytes.slice_splice_self _ _ (by omega)]
    rfl
  · rw [Bytes.slice_splice_self _ _ (by omega)]
    exact congrArg (fun p : Bytes 116 => computeMac1 c _ p.toList)
      (Bytes.slice_splice_of_disjoint _ _ (.inl (Nat.le_refl _))).symm
  · exact Function.update_self id _ r.tunnels

/-- **The responder** answers an initiation that carries the transcript of its own secrets. -/
theorem responderConsumeInitiation_spec (hc : c.Lawful) {rPriv iPriv ePriv es ss : Key}
    {timestamp : Bytes 12} {msg : Bytes 148} {respPriv ee se : Key} (psk : Key) (index : UInt32)
    (hcarries : Carries c (dhPublic c rPriv) (dhPublic c ePriv) (opening c (dhPublic c rPriv)
      (dhPublic c iPriv) (dhPublic c ePriv) es ss timestamp) msg)
    (hes : dh c rPriv (dhPublic c ePriv) = .ok es) (hss : dh c rPriv (dhPublic c iPriv) = .ok ss)
    (hee : dh c respPriv (dhPublic c ePriv) = .ok ee) (hse : dh c respPriv (dhPublic c iPriv) = .ok se) :
    ∃ hs, responderConsumeInitiation c rPriv psk msg.toList respPriv index = .ok hs ∧
      hs.peerStaticPub = dhPublic c iPriv ∧
      let cl := closing c (opening c (dhPublic c rPriv) (dhPublic c iPriv) (dhPublic c ePriv) es ss
        timestamp) (dhPublic c respPriv) ee se psk
      Answers c (dhPublic c iPriv) (dhPublic c respPriv) cl hs.response ∧
      (hs.recvKey, hs.sendKey) = kdf2 c cl.chainingKey [] := by
  have hstatic : aeadDecrypt c
      (kdf2 c (kdf1 c (handshakeInitial c (dhPublic c rPriv)).1 (dhPublic c ePriv).toList) es.toList).2 0
      (opening c (dhPublic c rPriv) (dhPublic c iPriv) (dhPublic c ePriv) es ss timestamp).encStatic
      (mixHash c (handshakeInitial c (dhPublic c rPriv)).2 (dhPublic c ePriv).toList).toList =
      .ok (dhPublic c iPriv).toList := aeadDecrypt_aeadEncrypt hc _ 0 _ _
  have htimestamp : aeadDecrypt c
      (kdf2 c (kdf2 c (kdf1 c (handshakeInitial c (dhPublic c rPriv)).1 (dhPublic c ePriv).toList)
        es.toList).1 ss.toList).2 0
      (opening c (dhPublic c rPriv) (dhPublic c iPriv) (dhPublic c ePriv) es ss timestamp).encTs
      (mixHash c (mixHash c (handshakeInitial c (dhPublic c rPriv)).2 (dhPublic c ePriv).toList)
        (opening c (dhPublic c rPriv) (dhPublic c iPriv) (dhPublic c ePriv) es ss
          timestamp).encStatic.toList).toList = .ok timestamp.toList := aeadDecrypt_aeadEncrypt hc _ 0 _ _
  rw [responderConsumeInitiation, if_neg (by simp)]
  simp only [Bytes.ofList_toList, hcarries.kind, hcarries.ephemeral, hcarries.encStatic, hcarries.encTs,
    hcarries.mac1, macsEqual_self, ne_eq, not_true_eq_false, if_false, Bool.not_true, Bool.false_eq_true,
    hes, hstatic, Bytes.length_toList, hss, htimestamp, hee, hse, bind, Except.bind, pure, Except.pure]
  refine ⟨_, rfl, rfl, ⟨?_, ?_, ?_, ?_⟩, rfl⟩
  · rw [Bytes.get_splice_of_ne _ _ (by omega), Bytes.get_splice_of_ne _ _ (by omega),
      Bytes.get_splice_of_ne _ _ (by omega), Bytes.get_putLE_of_ne _ (by omega),
      Bytes.get_putLE_of_ne _ (by omega)]
    rfl
  · rw [Bytes.slice_splice_of_disjoint _ _ (by omega), Bytes.slice_splice_of_disjoint _ _ (by omega),
      Bytes.slice_splice_self _ _ (by omega)]
  · rw [Bytes.slice_splice_of_disjoint _ _ (by omega), Bytes.slice_splice_self _ _ (by omega)]
    rfl
  · rw [Bytes.slice_splice_self _ _ (by omega)]
    exact congrArg (fun p : Bytes 60 => computeMac1 c _ p.toList)
      (Bytes.slice_splice_of_disjoint _ _ (.inl (Nat.le_refl _))).symm

/-- **The initiator** takes a response that carries on the transcript of its tunnel. -/
theorem handleResponse_spec (hc : c.Lawful) (tsc : UInt64) {o : Opening} {ePub ee se : Key} {resp : Bytes 92}
    (ht : s.tunnel id = some t) (hstate : t.state = .initiated) (hchain : t.chainingKey = o.chainingKey)
    (hhash : t.handshakeHash = o.hash) (hee : dh c t.ephemeralPriv ePub = .ok ee)
    (hse : dh c t.localStatic ePub = .ok se)
    (hanswers : Answers c (dhPublic c t.localStatic) ePub (closing c o ePub ee se t.presharedKey) resp) :
    ∃ s', (handleResponse c tsc id resp.toList).exec s = (.ok (), s') ∧ ∃ t', s'.tunnel id = some t' ∧
      (t'.sendKey, t'.recvKey) = kdf2 c (closing c o ePub ee se t.presharedKey).chainingKey [] ∧
      t'.state = .confirmed := by
  obtain ⟨r, rfl, ht'⟩ := Option.bind_eq_some_iff.mp ht
  have hnothing : aeadDecrypt c
      (kdf3 c (kdf1 c (kdf1 c (kdf1 c o.chainingKey ePub.toList) ee.toList) se.toList)
        t.presharedKey.toList).2.2 0 (closing c o ePub ee se t.presharedKey).encNothing
      (mixHash c (mixHash c o.hash ePub.toList)
        (kdf3 c (kdf1 c (kdf1 c (kdf1 c o.chainingKey ePub.toList) ee.toList) se.toList)
          t.presharedKey.toList).2.1.toList).toList = .ok [] := aeadDecrypt_aeadEncrypt hc _ 0 _ _
  let keys := kdf2 c (closing c o ePub ee se t.presharedKey).chainingKey []
  refine ⟨some { r with
    tunnels := Function.update r.tunnels id (some { t with
      sendKey := keys.1
      recvKey := keys.2
      state := .confirmed
      lastHandshakeTsc := tsc })
    handshakesSucceeded := r.handshakesSucceeded + 1 }, ?_, _, Function.update_self id _ r.tunnels, rfl, rfl⟩
  · rw [handleResponse, Checked.bind_ok (Checked.require_exec (by simp))]
    dsimp only
    rw [Bytes.ofList_toList, hanswers.kind, Checked.bind_ok (Checked.require_exec (decide_eq_true rfl)),
      Checked.bind_ok (lookup_exec ht')]
    dsimp only
    rw [hstate, Checked.bind_ok (Checked.require_exec (decide_eq_true rfl)), hanswers.mac1, macsEqual_self,
      Checked.bind_ok (Checked.require_exec rfl), hanswers.ephemeral, hee,
      Checked.bind_ok Checked.exec_ofExcept, hse, Checked.bind_ok Checked.exec_ofExcept, hchain, hhash]
    rw [hanswers.encNothing, hnothing, Checked.bind_ok Checked.exec_ofExcept,
      Checked.bind_ok (Checked.require_exec List.isEmpty_nil), Checked.bind_ok Checked.exec_write]
    rfl

end Parties

/-! ## Refused responses -/

theorem readOnly_lookup (id : UInt64) : Checked.ReadOnly (lookup id) := by
  intro s
  cases s with
  | none => rfl
  | some r =>
    show (Checked.exec (Checked.okOr (r.tunnels id) _ >>= fun t => pure (r, t)) (some r)).2 = some r
    cases r.tunnels id with
    | none => rfl
    | some t => rfl

/-- Every check of `handle_response` comes before its one write. -/
theorem failSafe_handleResponse (c : Crypto) (tsc id : UInt64) (response : ByteString) :
    Checked.FailSafe (handleResponse c tsc id response) := by
  refine (Checked.readOnly_ofExcept _).bind_failSafe fun _ => ?_
  refine (Checked.readOnly_ofExcept _).bind_failSafe fun _ => ?_
  refine (readOnly_lookup id).bind_failSafe fun _ => ?_
  refine (Checked.readOnly_ofExcept _).bind_failSafe fun _ => ?_
  refine (Checked.readOnly_ofExcept _).bind_failSafe fun _ => ?_
  refine (Checked.readOnly_ofExcept _).bind_failSafe fun _ => ?_
  refine (Checked.readOnly_ofExcept _).bind_failSafe fun _ => ?_
  refine (Checked.readOnly_ofExcept _).bind_failSafe fun _ => ?_
  refine (Checked.readOnly_ofExcept _).bind_failSafe fun _ => ?_
  exact Checked.write_bind_failSafe

/-! ## Agreement -/

/-- **The handshake agrees.** The responder takes every initiation built for it and learns who
sent it; the initiator takes the reply, whatever happened to other tunnels in between, and what
one sends with the other receives with. A response that is refused changes nothing, in any run. -/
theorem handshake_agrees (c : Crypto) (hc : c.Lawful) :
    (∀ (s s₁ : Reg) (id tsc tsc' : UInt64) (entropy : Option Key) (t : Tunnel) (msg : Bytes 148)
        (rPriv respPriv : Key) (index : UInt32),
      s.tunnel id = some t → t.peerStatic = dhPublic c rPriv →
      (driveInitiation c entropy tsc id).exec s = (.ok msg, s₁) →
      ∃ hs, responderConsumeInitiation c rPriv t.presharedKey msg.toList respPriv index = .ok hs ∧
        hs.peerStaticPub = dhPublic c t.localStatic ∧
        ∀ s₂ : Reg, s₂.tunnel id = s₁.tunnel id →
          ∃ s₃ t₃, (handleResponse c tsc' id hs.response.toList).exec s₂ = (.ok (), s₃) ∧
            s₃.tunnel id = some t₃ ∧ t₃.state = .confirmed ∧
            t₃.sendKey = hs.recvKey ∧ t₃.recvKey = hs.sendKey) ∧
    ∀ (s s' : Reg) (calls : List Call) (id tsc : UInt64) (response : ByteString) (e : String),
      (handleResponse c tsc id response).exec (run c s calls) = (.error e, s') →
      s' = run c s calls := by
  refine ⟨?_, fun s s' calls id tsc response e => failSafe_handleResponse c tsc id response _ e s'⟩
  intro s s₁ id tsc tsc' entropy t msg rPriv respPriv index ht hpeer hdrive
  obtain ⟨ePriv, es, ss, hes, hss, hcarries, ht₁⟩ := driveInitiation_spec hdrive ht
  rw [hpeer] at hes hss hcarries ht₁
  -- the secrets, from the responder's side
  obtain ⟨es', hes₁, hes₂⟩ := dh_agree hc ePriv rPriv
  obtain rfl := Except.ok.inj (hes.symm.trans hes₁)
  obtain ⟨ss', hss₁, hss₂⟩ := dh_agree hc t.localStatic rPriv
  obtain rfl := Except.ok.inj (hss.symm.trans hss₁)
  obtain ⟨ee, hee₁, hee₂⟩ := dh_agree hc ePriv respPriv
  obtain ⟨se, hse₁, hse₂⟩ := dh_agree hc t.localStatic respPriv
  obtain ⟨hs, hok, hpub, hanswers, hkeys⟩ :=
    responderConsumeInitiation_spec hc t.presharedKey index hcarries hes₂ hss₂ hee₂ hse₂
  refine ⟨hs, hok, hpub, fun s₂ hs₂ => ?_⟩
  obtain ⟨s₃, hrun, t₃, ht₃, hkeys₃, hstate₃⟩ := handleResponse_spec hc tsc' (hs₂.trans ht₁) rfl
    rfl rfl hee₁ hse₁ hanswers
  obtain ⟨hsend, hrecv⟩ := Prod.mk.inj (hkeys₃.trans hkeys.symm)
  exact ⟨s₃, t₃, hrun, ht₃, hstate₃, hsend, hrecv⟩

/-- A key stream that repeats the key. -/
def toyStream (key : Key) (n : Nat) : Bytes n := fun i => key.get (i % 32)

/-- Toy primitives that keep the laws. -/
def toyCrypto : Crypto where
  blake2s data := Bytes.ofList data.reverse
  hmac key data := Bytes.ofList (data ++ key)
  keyed key data := Bytes.ofList (data.reverse ++ key.toList)
  encrypt key _ aad n pt :=
    (pt.xor (toyStream key n), Bytes.ofList ((pt.xor (toyStream key n)).toList ++ aad))
  decrypt key _ aad n ct tag :=
    if tag = Bytes.ofList (ct.toList ++ aad) then some (ct.xor (toyStream key n)) else none
  sharedSecret priv pub := some (priv.xor pub)
  publicKey priv := priv

theorem toyCrypto_lawful : toyCrypto.Lawful where
  sharedSecret_isSome _ _ := rfl
  sharedSecret_comm a b := by
    refine congrArg some (funext fun i => ?_)
    exact UInt8.xor_comm (a i) (b i)
  decrypt_encrypt key nonce aad n pt := by
    refine (if_pos rfl).trans (congrArg some ?_)
    exact Bytes.xor_xor_cancel pt (toyStream key n)

/-- One tunnel, number 7, to the peer with the key 9. -/
def toyReg : Reg := some {
  tunnels := fun id => if id = 7 then some {
    peerStatic := fun _ => 9
    localStatic := fun _ => 3
    presharedKey := fun _ => 5
    state := .idle
    lastHandshakeTsc := 0
    chainingKey := Bytes.zero
    handshakeHash := Bytes.zero
    ephemeralPriv := Bytes.zero
    ephemeralPub := Bytes.zero
    sendKey := Bytes.zero
    recvKey := Bytes.zero } else none
  handshakesAttempted := 0
  handshakesSucceeded := 0 }

/-- Its peer answers it. -/
theorem toyReg_agrees : ∃ msg s₁, (driveInitiation toyCrypto (some fun _ => 4) 100 7).exec toyReg = (.ok msg, s₁) ∧
    ∃ hs, responderConsumeInitiation toyCrypto (fun _ => 9) (fun _ => 5) msg.toList (fun _ => 6) 1 = .ok hs ∧
      hs.peerStaticPub = fun _ => 3 := by
  refine ⟨_, _, rfl, ?_⟩
  obtain ⟨hs, hok, hpub, -⟩ := (handshake_agrees toyCrypto toyCrypto_lawful).1 toyReg _ 7 100 200
    (some fun _ => 4) _ _ (fun _ => 9) (fun _ => 6) 1 rfl rfl rfl
  exact ⟨hs, hok, hpub⟩

end AthenaOS.WireGuard
