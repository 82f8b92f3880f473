import AthenaOS.Keychain.Vault
import AthenaOS.Lib.SortedMap

/-!
# Saved keychains and reopening them (`components/ath_keychain/src/lib.rs`)

The reader caps the KDF cost and the size of the blob; neither the constructor nor
the mutators do.
-/

namespace AthenaOS.Vault

open Lib Lib.Wire

attribute [local instance] nameOrd

/-! ## Reading the table back -/

theorem readU32_reads {n : Nat} (hn : n < 256 ^ 4) : Decoder.Reads readU32 (leBytes 4 n) n := by
  intro rest
  have hroom : ¬ (leBytes 4 n ++ rest).length < 4 := by
    rw [List.length_append, length_leBytes]
    omega
  rw [readU32, if_neg hroom, List.take_left' (length_leBytes 4 n),
    List.drop_left' (length_leBytes 4 n), leNat_leBytes_of_lt hn]

theorem readSlice_reads (part : ByteString) : Decoder.Reads (readSlice part.length) part part := by
  intro rest
  have hroom : ¬ (part ++ rest).length < part.length := by
    rw [List.length_append]
    omega
  rw [readSlice, if_neg hroom, List.take_left, List.drop_left]

theorem readString_reads (s : String) : Decoder.Reads (readString (byteLen s)) (utf8 s) s := by
  intro rest
  rw [readString, byteLen, Decoder.bind_ok (readSlice_reads (utf8 s) rest), ofUtf8?_utf8]
  rfl

/-- The fields of a credential are within their caps. -/
structure Capped (cred : Credential) : Prop where
  service : byteLen cred.service ≤ maxServiceLen
  account : byteLen cred.account ≤ maxAccountLen
  secret : cred.secret.length ≤ maxSecretLen
  metadata : ∀ m ∈ cred.metadata, byteLen m ≤ maxMetadataLen

theorem readMetadata_reads {metadata : Option String}
    (h : ∀ m ∈ metadata, byteLen m ≤ maxMetadataLen) :
    Decoder.Reads readMetadata (metadataBytes metadata) metadata := by
  cases metadata with
  | none => exact fun _ => rfl
  | some m =>
    have hm : byteLen m ≤ maxMetadataLen := h m rfl
    have hlen : byteLen m < 256 ^ 4 := lt_of_le_of_lt hm (by decide)
    have hbytes : metadataBytes (some m) =
        [1] ++ (leBytes 4 (byteLen m) ++ (utf8 m ++ [])) := by
      rw [List.append_nil]
      rfl
    rw [hbytes, readMetadata]
    refine .bind (a := 1) (fun _ => rfl) ?_
    rw [if_neg (by decide), if_pos rfl]
    refine .bind (readU32_reads hlen) (.of_check (Nat.not_lt.mpr hm) ?_)
    exact .bind (readString_reads m) (.pure (some m))

/-- A credential within its caps is read back. -/
theorem readCredential_reads {cred : Credential} (h : Capped cred) :
    Decoder.Reads readCredential (credentialBytes cred) cred := by
  have hservice : byteLen cred.service < 256 ^ 4 := lt_of_le_of_lt h.service (by decide)
  have haccount : byteLen cred.account < 256 ^ 4 := lt_of_le_of_lt h.account (by decide)
  have hsecret : cred.secret.length < 256 ^ 4 := lt_of_le_of_lt h.secret (by decide)
  have hbytes : credentialBytes cred =
      leBytes 4 (byteLen cred.service) ++ (utf8 cred.service ++
        (leBytes 4 (byteLen cred.account) ++ (utf8 cred.account ++
          (leBytes 4 cred.secret.length ++ (cred.secret ++
            (metadataBytes cred.metadata ++ [])))))) := by
    simp only [credentialBytes, field, List.append_assoc, List.append_nil, byteLen]
  rw [hbytes, readCredential]
  refine .bind (readU32_reads hservice) (.of_check (Nat.not_lt.mpr h.service) ?_)
  refine .bind (readString_reads _) (.bind (readU32_reads haccount) ?_)
  refine .of_check (Nat.not_lt.mpr h.account) ?_
  refine .bind (readString_reads _) (.bind (readU32_reads hsecret) ?_)
  refine .of_check (Nat.not_lt.mpr h.secret) ?_
  exact .bind (readSlice_reads _) (.bind (readMetadata_reads h.metadata) (.pure cred))

/-- A list of rows is read back into the map it is given. -/
theorem readCredentials_reads {creds : List Credential} (h : ∀ cred ∈ creds, Capped cred) :
    ∀ map : Entries, Decoder.Reads (readCredentials creds.length map)
      (creds.flatMap credentialBytes)
      (creds.foldl (fun m cred => m.insert (cred.service, cred.account) cred) map) := by
  induction creds with
  | nil => exact fun map => .pure map
  | cons cred rest ih =>
    intro map
    refine .bind (readCredential_reads (h cred List.mem_cons_self)) ?_
    exact ih (fun c hc => h c (List.mem_cons_of_mem _ hc)) _

namespace Keychain

/-- Every row stands under its own service and account. -/
def Keyed (entries : Entries) : Prop :=
  ∀ (key : String × String) (cred : Credential), entries[key]? = some cred → key = (cred.service, cred.account)

/-- What the mutators keep. -/
structure Sound (c : Crypto) (passphrase : String) (kc : Keychain) : Prop where
  keyed : Keyed kc.entries
  capped : ∀ (key : String × String) (cred : Credential), kc.entries[key]? = some cred → Capped cred
  size : kc.entries.size ≤ maxEntries
  masterKey : kc.masterKey = deriveKey c passphrase kc.salt kc.kdf

variable {entries : Entries} {cred : Credential} {c : Crypto} {passphrase : String} {kc : Keychain}

theorem mem_rows (h : cred ∈ entries.toList.map Prod.snd) :
    ∃ key : String × String, entries[key]? = some cred := by
  obtain ⟨⟨key, cred'⟩, hmem, rfl⟩ := List.mem_map.mp h
  exact ⟨key, Std.ExtTreeMap.mem_toList_iff_getElem?_eq_some.mp hmem⟩

/-- Inserting the rows by their own keys rebuilds the map. -/
theorem foldl_insert_rows (h : Keyed entries) :
    (entries.toList.map Prod.snd).foldl
      (fun m cred => m.insert (cred.service, cred.account) cred) (∅ : Entries) = entries := by
  rw [List.foldl_map]
  refine Eq.trans ?_ (SortedMap.foldl_insert_toList entries)
  refine List.foldl_ext _ _ _ fun m e he => ?_
  rw [← h e.1 e.2 (Std.ExtTreeMap.mem_toList_iff_getElem?_eq_some.mp he)]

theorem serializePlaintext_eq (kc : Keychain) :
    kc.serializePlaintext =
      leBytes 4 kc.entries.size ++ (kc.entries.toList.map Prod.snd).flatMap credentialBytes := by
  rw [serializePlaintext, List.flatMap_map]

/-- The table of a sound keychain reads back. -/
theorem parsePlaintext_serialize (h : kc.Sound c passphrase) :
    parsePlaintext kc.serializePlaintext = .ok kc.entries := by
  have hcount : kc.entries.size < 256 ^ 4 := lt_of_le_of_lt h.size (by decide)
  have hcapped : ∀ cred ∈ kc.entries.toList.map Prod.snd, Capped cred := by
    intro cred hcred
    obtain ⟨key, hkey⟩ := mem_rows hcred
    exact h.capped key cred hkey
  have hrows := readCredentials_reads hcapped ∅ []
  rw [List.length_map, Std.ExtTreeMap.length_toList, foldl_insert_rows h.keyed,
    List.append_nil] at hrows
  rw [parsePlaintext, serializePlaintext_eq, readU32_reads hcount]
  simp only [bind, Except.bind, if_neg (Nat.not_lt.mpr h.size), hrows]
  simp only [ne_eq, not_true_eq_false, or_self, if_false]
  rfl

/-! ## Reading the header back -/

/-- The bytes of the credential table. -/
def rowSize (cred : Credential) : Nat :=
  (4 + byteLen cred.service) + (4 + byteLen cred.account) + (4 + cred.secret.length) +
    match cred.metadata with
    | some m => 1 + (4 + byteLen m)
    | none => 1

/-- The size of the table: the count, and a row for each entry. -/
def tableSize (entries : Entries) : Nat := 4 + (entries.toList.map fun e => rowSize e.2).sum

theorem length_credentialBytes (cred : Credential) :
    (credentialBytes cred).length = rowSize cred := by
  cases hm : cred.metadata <;>
    simp only [credentialBytes, metadataBytes, field, rowSize, byteLen, hm, List.length_append,
      length_leBytes, List.length_cons, List.length_nil] <;> omega

theorem length_serializePlaintext (kc : Keychain) :
    kc.serializePlaintext.length = tableSize kc.entries := by
  rw [serializePlaintext, List.length_append, length_leBytes, List.length_flatMap, tableSize]
  simp only [length_credentialBytes]

theorem length_buildHeader (kc : Keychain) (nonce : Bytes 12) :
    (kc.buildHeader nonce).length = headerFixedLen + saltLen + nonceLen := by
  simp only [buildHeader, List.length_append, length_leBytes, Bytes.length_toList]
  rfl

/-- The caps of the reader that nothing checks before a keychain is saved. -/
structure Openable (kc : Keychain) : Prop where
  tCost : kc.kdf.tCost ≤ maxOpenTCost
  mKib : kc.kdf.mKib ≤ maxOpenMKib
  size : headerFixedLen + saltLen + nonceLen + tableSize kc.entries + 16 ≤ maxBlobSize

theorem length_toBytesWithNonce (hc : c.Lawful) (kc : Keychain) (nonce : Bytes 12) :
    (kc.toBytesWithNonce c nonce).length =
      headerFixedLen + saltLen + nonceLen + tableSize kc.entries + 16 := by
  rw [toBytesWithNonce, List.length_append, length_buildHeader, hc.length_seal,
    length_serializePlaintext]
  omega

/-- The parts of a saved keychain the reader looks at. -/
theorem toBytesWithNonce_parts (c : Crypto) (kc : Keychain) (nonce : Bytes 12) :
    let data := kc.toBytesWithNonce c nonce
    slice data 0 8 = magic ∧ leNat (slice data 8 2) = formatVersion ∧
      UInt32.ofNat (leNat (slice data 10 4)) = kc.kdf.tCost ∧
      UInt32.ofNat (leNat (slice data 14 4)) = kc.kdf.mKib ∧
      data.getD 18 0 = kc.kdf.parallelism ∧ (data.getD 19 0).toNat = saltLen ∧
      slice data headerFixedLen saltLen = kc.salt.toList ∧
      slice data (headerFixedLen + saltLen) nonceLen = nonce.toList := by
  intro data
  obtain ⟨ct, hct⟩ : ∃ ct, data = magic ++ (leBytes 2 formatVersion ++
      (leBytes 4 kc.kdf.tCost.toNat ++ (leBytes 4 kc.kdf.mKib.toNat ++ ([kc.kdf.parallelism] ++
        ([UInt8.ofNat saltLen] ++ (kc.salt.toList ++ (nonce.toList ++ ct))))))) := by
    refine ⟨c.aeadSeal (keyArray kc.masterKey) nonce (kc.buildHeader nonce)
      kc.serializePlaintext, ?_⟩
    show kc.toBytesWithNonce c nonce = _
    rw [toBytesWithNonce, buildHeader]
    simp only [List.append_assoc]
  rw [hct]
  refine ⟨slice_append_start _ _ rfl, ?_, ?_, ?_, ?_, ?_, ?_, ?_⟩
  · rw [slice_append_mid magic _ _ (i := 8) rfl (length_leBytes 2 _).symm]
    exact leNat_leBytes_of_lt (by decide)
  · rw [← List.append_assoc, slice_append_mid (magic ++ leBytes 2 formatVersion) _ _
      (i := 10) rfl (length_leBytes 4 _).symm, leNat_leBytes_of_lt kc.kdf.tCost.toNat_lt,
      UInt32.ofNat_toNat]
  · iterate 2 rw [← List.append_assoc]
    rw [slice_append_mid _ (leBytes 4 kc.kdf.mKib.toNat) _ (i := 14)
      (by simp only [List.length_append, length_leBytes]; rfl) (length_leBytes 4 _).symm,
      leNat_leBytes_of_lt kc.kdf.mKib.toNat_lt, UInt32.ofNat_toNat]
  · iterate 3 rw [← List.append_assoc]
    rw [List.getD_append_right _ _ _ _ (by simp only [List.length_append, length_leBytes]; decide)]
    simp only [List.length_append, length_leBytes]
    rfl
  · iterate 4 rw [← List.append_assoc]
    rw [List.getD_append_right _ _ _ _ (by
      simp only [List.length_append, length_leBytes, List.length_singleton]; decide)]
    simp only [List.length_append, length_leBytes]
    rfl
  · iterate 5 rw [← List.append_assoc]
    exact slice_append_mid _ _ _ (by simp only [List.length_append, length_leBytes]; rfl)
      (Bytes.length_toList _).symm
  · iterate 6 rw [← List.append_assoc]
    exact slice_append_mid _ _ _
      (by simp only [List.length_append, length_leBytes, Bytes.length_toList]; rfl)
      (Bytes.length_toList _).symm

/-- A sound keychain within the caps of the reader reopens, as it was except for the
nonce. -/
theorem open_toBytes (hc : c.Lawful) (h : kc.Sound c passphrase) (hopen : kc.Openable)
    (nonce : Bytes 12) :
    Keychain.open c (kc.toBytesWithNonce c nonce) passphrase = .ok { kc with nonce } := by
  obtain ⟨hmagic, hversion, htCost, hmKib, hpar, hsaltLen, hsalt, hnonce⟩ :=
    toBytesWithNonce_parts c kc nonce
  have hlen := length_toBytesWithNonce hc kc nonce
  have hheader : (kc.toBytesWithNonce c nonce).take (headerFixedLen + saltLen + nonceLen) =
      kc.buildHeader nonce := List.take_left' (length_buildHeader kc nonce)
  have hct : (kc.toBytesWithNonce c nonce).drop (headerFixedLen + saltLen + nonceLen) =
      c.aeadSeal (keyArray kc.masterKey) nonce (kc.buildHeader nonce) kc.serializePlaintext :=
    List.drop_left' (length_buildHeader kc nonce)
  have hctLen : ¬ (c.aeadSeal (keyArray kc.masterKey) nonce (kc.buildHeader nonce)
      kc.serializePlaintext).length < 16 := by
    rw [hc.length_seal]
    omega
  have hplain : ¬ kc.serializePlaintext.length > maxPlaintextSize := by
    have hsize : headerFixedLen + saltLen + nonceLen + tableSize kc.entries + 16 ≤
      maxPlaintextSize := hopen.size
    rw [length_serializePlaintext]
    omega
  have hparams : ¬ (kc.kdf.mKib > maxOpenMKib ∨ kc.kdf.tCost > maxOpenTCost) := by
    rintro (hm | ht)
    · exact UInt32.not_lt.mpr hopen.mKib hm
    · exact UInt32.not_lt.mpr hopen.tCost ht
  rw [Keychain.open]
  simp only [hmagic, hversion, htCost, hmKib, hpar, hsaltLen, hsalt, hnonce, hheader, hct,
    Bytes.ofList_toList, ← h.masterKey, hc.open_seal, parsePlaintext_serialize h]
  rw [if_neg (by rw [hlen]; exact Nat.not_lt.mpr hopen.size), if_neg (by rw [hlen]; omega),
    if_neg (not_not.mpr rfl), if_neg (not_not.mpr rfl), if_neg (not_not.mpr rfl),
    if_neg hparams, if_neg (by rw [hlen]; omega), if_neg hctLen, if_neg hplain]
  rfl

/-- Beyond a cap of the reader the saved keychain does not reopen. -/
theorem open_toBytes_error (hc : c.Lawful) (passphrase : String) (hopen : ¬ kc.Openable)
    (nonce : Bytes 12) :
    ∃ e, Keychain.open c (kc.toBytesWithNonce c nonce) passphrase = .error e := by
  obtain ⟨hmagic, hversion, htCost, hmKib, -, hsaltLen, -, -⟩ := toBytesWithNonce_parts c kc nonce
  have hlen := length_toBytesWithNonce hc kc nonce
  by_cases hsize : headerFixedLen + saltLen + nonceLen + tableSize kc.entries + 16 ≤ maxBlobSize
  · have hparams : kc.kdf.mKib > maxOpenMKib ∨ kc.kdf.tCost > maxOpenTCost := by
      by_contra hparams
      rw [not_or] at hparams
      exact hopen ⟨UInt32.not_lt.mp hparams.2, UInt32.not_lt.mp hparams.1, hsize⟩
    refine ⟨.badKdfParams, ?_⟩
    rw [Keychain.open]
    simp only [hmagic, hversion, htCost, hmKib, hsaltLen]
    rw [if_neg (by rw [hlen]; exact Nat.not_lt.mpr hsize), if_neg (by rw [hlen]; omega),
      if_neg (not_not.mpr rfl), if_neg (not_not.mpr rfl), if_neg (not_not.mpr rfl), if_pos hparams]
    rfl
  · refine ⟨.tooLarge, ?_⟩
    rw [Keychain.open, if_pos (by rw [hlen]; exact Nat.not_le.mp hsize)]
    rfl

/-! ## Calls -/

/-- A refused credential changes nothing. -/
theorem addWithMetadata_failSafe (service account : String) (secret : ByteString)
    (metadata : Option String) : (addWithMetadata service account secret metadata).FailSafe := by
  rw [addWithMetadata]
  refine Checked.ReadOnly.bind_failSafe (Checked.readOnly_ofExcept _) fun _ => ?_
  refine Checked.ReadOnly.bind_failSafe (Checked.readOnly_ofExcept _) fun _ => ?_
  refine Checked.ReadOnly.bind_failSafe (Checked.readOnly_ofExcept _) fun _ => ?_
  refine Checked.ReadOnly.bind_failSafe (Checked.readOnly_ofExcept _) fun _ => ?_
  refine Checked.ReadOnly.bind_failSafe Checked.readOnly_read fun kc => ?_
  exact Checked.ReadOnly.bind_failSafe (Checked.readOnly_ofExcept _) fun _ =>
    Checked.write_bind_failSafe

/-- What an accepted credential does. -/
theorem addWithMetadata_eq_ok {service account : String} {secret : ByteString}
    {metadata : Option String} {kc' : Keychain} {u : Unit}
    (h : (addWithMetadata service account secret metadata).exec kc = (.ok u, kc')) :
    Capped ⟨service, account, secret, metadata⟩ ∧
      (kc.entries.contains (service, account) = true ∨ kc.entries.size < maxEntries) ∧
      kc' = { kc with entries :=
        kc.entries.insert (service, account) ⟨service, account, secret, metadata⟩ } := by
  rw [addWithMetadata] at h
  obtain ⟨_, _, hservice, h₁⟩ := Checked.bind_eq_ok h
  obtain ⟨hservice', rfl⟩ := Checked.require_eq_ok hservice
  obtain ⟨_, _, haccount, h₂⟩ := Checked.bind_eq_ok h₁
  obtain ⟨haccount', rfl⟩ := Checked.require_eq_ok haccount
  obtain ⟨_, _, hsecret, h₃⟩ := Checked.bind_eq_ok h₂
  obtain ⟨hsecret', rfl⟩ := Checked.require_eq_ok hsecret
  obtain ⟨_, _, hmetadata, h₄⟩ := Checked.bind_eq_ok h₃
  obtain ⟨hmetadata', rfl⟩ := Checked.require_eq_ok hmetadata
  obtain ⟨_, _, hread, h₅⟩ := Checked.bind_eq_ok h₄
  obtain ⟨rfl, rfl⟩ := Checked.read_eq_ok hread
  obtain ⟨_, _, hroom, h₆⟩ := Checked.bind_eq_ok h₅
  obtain ⟨hroom', rfl⟩ := Checked.require_eq_ok hroom
  rw [Bool.or_eq_true, decide_eq_true_eq] at hroom'
  refine ⟨⟨of_decide_eq_true hservice', of_decide_eq_true haccount', of_decide_eq_true hsecret',
    fun m hm => ?_⟩, hroom', Checked.write_bind_eq_ok h₆⟩
  obtain rfl := Option.mem_def.mp hm
  exact of_decide_eq_true hmetadata'

/-- A credential within its caps, in a table with room for it, keeps the keychain sound. -/
theorem Sound.insert
    (h : kc.Sound c passphrase) (hcred : Capped cred)
    (hroom : kc.entries.contains (cred.service, cred.account) = true ∨
      kc.entries.size < maxEntries) :
    Sound c passphrase
      { kc with entries := kc.entries.insert (cred.service, cred.account) cred } where
  keyed key cred' hget := by
    rw [Std.ExtTreeMap.getElem?_insert] at hget
    split at hget
    · rename_i hkey
      obtain rfl := Option.some.inj hget
      exact (Std.LawfulEqCmp.compare_eq_iff_eq.mp hkey).symm
    · exact h.keyed key cred' hget
  capped key cred' hget := by
    rw [Std.ExtTreeMap.getElem?_insert] at hget
    split at hget
    · obtain rfl := Option.some.inj hget
      exact hcred
    · exact h.capped key cred' hget
  size := by
    rw [Std.ExtTreeMap.size_insert]
    have hsize := h.size
    split
    · exact hsize
    · rename_i hnew
      have hlt := hroom.resolve_left fun hc => hnew (Std.ExtTreeMap.contains_iff_mem.mp hc)
      omega
  masterKey := h.masterKey

/-- Removing a credential keeps the keychain sound. -/
theorem Sound.erase {c : Crypto} {passphrase : String} {kc : Keychain}
    (h : kc.Sound c passphrase) (key : String × String) :
    Sound c passphrase { kc with entries := kc.entries.erase key } where
  keyed key' cred hget := by
    rw [Std.ExtTreeMap.getElem?_erase] at hget
    split at hget
    · cases hget
    · exact h.keyed key' cred hget
  capped key' cred hget := by
    rw [Std.ExtTreeMap.getElem?_erase] at hget
    split at hget
    · cases hget
    · exact h.capped key' cred hget
  size := Std.ExtTreeMap.size_erase_le.trans h.size
  masterKey := h.masterKey

end Keychain

inductive Call where
  | add (service account : String) (secret : ByteString)
  | addWithMetadata (service account : String) (secret : ByteString) (metadata : Option String)
  | delete (service account : String)

/-- The keychain after a call, accepted or rejected. -/
def Call.run (kc : Keychain) : Call → Keychain
  | add service account secret => ((Keychain.add service account secret).exec kc).2
  | addWithMetadata service account secret metadata =>
    ((Keychain.addWithMetadata service account secret metadata).exec kc).2
  | delete service account => (kc.delete service account).2

namespace Keychain

variable {c : Crypto} {passphrase : String} {kc : Keychain}

theorem Sound.addWithMetadata (h : kc.Sound c passphrase) (service account : String)
    (secret : ByteString) (metadata : Option String) :
    Sound c passphrase ((Keychain.addWithMetadata service account secret metadata).exec kc).2 := by
  rcases hrun : (Keychain.addWithMetadata service account secret metadata).exec kc with ⟨_ | u, kc'⟩
  · exact (addWithMetadata_failSafe service account secret metadata kc _ kc' hrun).symm ▸ h
  · obtain ⟨hcapped, hroom, rfl⟩ := addWithMetadata_eq_ok hrun
    exact h.insert hcapped hroom

theorem Sound.call (h : kc.Sound c passphrase) (call : Call) :
    Sound c passphrase (call.run kc) := by
  cases call with
  | add service account secret => exact h.addWithMetadata service account secret none
  | addWithMetadata service account secret metadata =>
    exact h.addWithMetadata service account secret metadata
  | delete service account => exact h.erase (service, account)

/-- Every keychain the calls make of a fresh one is sound. -/
theorem sound_run (c : Crypto) (passphrase : String) (salt : Bytes 16) (nonce : Bytes 12)
    (kdf : KdfParams) (calls : List Call) :
    Sound c passphrase (calls.foldl Call.run (withEntropy c passphrase salt nonce kdf)) := by
  have hfresh : Sound c passphrase (withEntropy c passphrase salt nonce kdf) := by
    refine ⟨fun key cred hget => ?_, fun key cred hget => ?_, Nat.zero_le _, rfl⟩
    · exact nomatch (Std.ExtTreeMap.getElem?_empty (a := key)).symm.trans hget
    · exact nomatch (Std.ExtTreeMap.getElem?_empty (a := key)).symm.trans hget
  generalize withEntropy c passphrase salt nonce kdf = kc at hfresh
  induction calls generalizing kc with
  | nil => exact hfresh
  | cons call calls ih => exact ih _ (hfresh.call call)

end Keychain

/-- After any calls on a fresh keychain, what is saved reopens with the same entries,
salt and parameters exactly when the caps of the reader are met; a refused
credential never changes the keychain. -/
theorem reopens_iff {c : Crypto} (hc : c.Lawful) (passphrase : String) (salt : Bytes 16)
    (nonce nonce' : Bytes 12) (kdf : KdfParams) (calls : List Call) :
    let kc := calls.foldl Call.run (Keychain.withEntropy c passphrase salt nonce kdf)
    ((∃ kc', Keychain.open c (kc.toBytesWithNonce c nonce') passphrase = .ok kc' ∧
        kc'.entries = kc.entries ∧ kc'.salt = kc.salt ∧ kc'.kdf = kc.kdf) ∧
      ∀ service account secret metadata e kc',
        (Keychain.addWithMetadata service account secret metadata).exec kc = (.error e, kc') →
          kc' = kc) ↔
    kc.Openable := by
  intro kc
  constructor
  · rintro ⟨⟨kc', hread, -⟩, -⟩
    by_contra hopen
    obtain ⟨e, herror⟩ := Keychain.open_toBytes_error hc passphrase hopen nonce'
    exact nomatch hread.symm.trans herror
  · intro hopen
    have hsound := Keychain.sound_run c passphrase salt nonce kdf calls
    refine ⟨⟨_, Keychain.open_toBytes hc hsound hopen nonce', rfl, rfl, rfl⟩, ?_⟩
    intro service account secret metadata e kc' hrun
    exact Keychain.addWithMetadata_failSafe service account secret metadata kc e kc' hrun

/-! ### A lawful cipher -/

/-- A ciphertext that is the plaintext and a tag of key, nonce and associated data. -/
def plainCrypto : Crypto where
  argon2id passphrase salt _ _ _ := .ofList (passphrase ++ salt.toList)
  aeadSeal key nonce aad plaintext := plaintext ++ (key.toList ++ (nonce.toList ++ aad)).take 16
  aeadOpen key nonce aad ciphertext :=
    let plaintext := ciphertext.take (ciphertext.length - 16)
    if ciphertext = plaintext ++ (key.toList ++ (nonce.toList ++ aad)).take 16 then some plaintext
    else none

theorem plainCrypto_lawful : plainCrypto.Lawful := by
  have htag : ∀ (key : Bytes 32) (rest : ByteString), ((key.toList ++ rest).take 16).length = 16 := by
    intro key rest
    rw [List.length_take, List.length_append, Bytes.length_toList]
    omega
  constructor
  · intro key nonce aad plaintext
    have hlen : (plaintext ++ (key.toList ++ (nonce.toList ++ aad)).take 16).length - 16 =
        plaintext.length := by
      rw [List.length_append, htag, Nat.add_sub_cancel]
    simp only [plainCrypto, hlen, List.take_left, if_true]
  · intro key nonce aad plaintext
    exact (List.length_append ..).trans (congrArg _ (htag key _))

/-- `KdfParams::test_cheap`. -/
def testCheap : KdfParams := { tCost := 1, mKib := 32, parallelism := 1 }

/-- A keychain with one credential, saved and reopened. -/
theorem github_reopens :
    let kc := [Call.add "github.com" "alice" [1, 2, 3]].foldl Call.run
      (Keychain.withEntropy plainCrypto "hunter2" (fun _ => 0x11) (fun _ => 0x22) testCheap)
    ∃ kc', Keychain.open plainCrypto (kc.toBytesWithNonce plainCrypto fun _ => 0x33) "hunter2" =
      .ok kc' ∧ kc'.entries = kc.entries ∧ kc'.salt = kc.salt ∧ kc'.kdf = kc.kdf :=
  ((reopens_iff plainCrypto_lawful "hunter2" (fun _ => 0x11) (fun _ => 0x22) (fun _ => 0x33) testCheap
    [Call.add "github.com" "alice" [1, 2, 3]]).mpr
      ⟨by decide, by decide, by decide⟩).1

/-- An empty keychain made with 65 Argon2id iterations is saved without an error and
never opens again. -/
theorem costly_keychain_lost :
    ¬ ∀ c : Crypto, c.Lawful → ∀ (passphrase : String) (salt : Bytes 16) (nonce nonce' : Bytes 12)
      (kdf : KdfParams) (calls : List Call),
      let kc := calls.foldl Call.run (Keychain.withEntropy c passphrase salt nonce kdf)
      ∃ kc', Keychain.open c (kc.toBytesWithNonce c nonce') passphrase = .ok kc' ∧
        kc'.entries = kc.entries ∧ kc'.salt = kc.salt ∧ kc'.kdf = kc.kdf := by
  intro hreopens
  obtain ⟨kc', hread, -⟩ := hreopens plainCrypto plainCrypto_lawful "hunter2" (fun _ => 0x11)
    (fun _ => 0x22) (fun _ => 0x33) { testCheap with tCost := 65 } []
  have hcostly : ¬ (Keychain.withEntropy plainCrypto "hunter2" (fun _ => 0x11) (fun _ => 0x22)
      { testCheap with tCost := 65 }).Openable :=
    fun hopen => absurd hopen.tCost (by decide)
  obtain ⟨e, herror⟩ :=
    Keychain.open_toBytes_error plainCrypto_lawful "hunter2" hcostly fun _ => 0x33
  exact nomatch hread.symm.trans herror

end AthenaOS.Vault
