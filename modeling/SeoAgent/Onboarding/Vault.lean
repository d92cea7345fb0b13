import SeoAgent.Onboarding.Ownership
import SeoAgent.Persistence.Records
import SeoAgent.Verified.Lines
import SeoAgent.Verified.Repository

/-!
# Sealed credentials

The vault of `app/onboarding/vault.py`: each credential is sealed under a key of the server,
with its tenant, site and name as associated data, and kept in a record whose id is the site
and the name with a slash between them. The cipher and the hash that names keys are given; the
cipher is ideal, so a sealed value is read back under its own associated data only.

## Main results

* `decrypt_encrypt` — what is sealed under one of the keys is read back with the same
  associated data, and with no other.
* `put_spec` — a credential that is put stands in its record.
* `get_spec` — a credential in the record of a slot is read if and only if it was sealed with
  the associated data of that slot.
-/

namespace SeoAgent.Vault

open SeoAgent.Verified Lines Onboarding Persistence

/-! ## Keys -/

/-- `AESGCM`, which is ideal, and `_key_id`. -/
structure Crypto where
  keyId : List UInt8 → List Char
  encrypt : (key nonce plaintext associated : List UInt8) → List UInt8
  /-- `none` is `InvalidTag`. -/
  decrypt : (key nonce text associated : List UInt8) → Option (List UInt8)
  /-- A key id is in hexadecimal. -/
  keyId_plain : ∀ key, ':' ∉ keyId key
  decrypt_same : ∀ key nonce plaintext associated,
    decrypt key nonce (encrypt key nonce plaintext associated) associated = some plaintext
  decrypt_other : ∀ key nonce plaintext associated associated', associated' ≠ associated →
    decrypt key nonce (encrypt key nonce plaintext associated) associated' = none

inductive VaultError
  | vaultConfigurationError (message : String)
  | secretResolutionError (message : String)
  | valueError (message : String)
  | validationError
  /-- `binascii.Error`, and text that is not in UTF-8. -/
  | encodingError
  | persistence (refusal : Repository.Refusal)
  deriving DecidableEq, Repr

/-- The keys of 32 bytes, the current one first. -/
structure Keyring where
  keys : List (List UInt8)
  ne_nil : keys ≠ []
  size : ∀ key ∈ keys, key.length = 32

/-- One key as the environment has it. -/
def readKey (encoded : List Char) : Except VaultError (List UInt8) :=
  let text := strip encoded
  match if text.all fun c => c.toNat < 128 then Base64.decode text else none with
  | none => .error (.vaultConfigurationError "A secret key is not valid base64.")
  | some raw =>
      if raw.length = 32 then .ok raw
      else .error
        (.vaultConfigurationError "Each secret key must be 32 bytes (base64 of 256 bits).")

/-- `Keyring(encoded_keys)`. -/
def Keyring.new (encodedKeys : List (List Char)) : Except VaultError Keyring :=
  match encodedKeys.mapM readKey with
  | .error e => .error e
  | .ok keys =>
      if h : keys ≠ [] ∧ ∀ key ∈ keys, key.length = 32 then .ok ⟨keys, h.1, h.2⟩
      else .error (.vaultConfigurationError "At least one secret key is required.")

/-- The first key. -/
def Keyring.current (ring : Keyring) : List UInt8 := ring.keys.head ring.ne_nil

/-- `_keys.get`: of keys with one id the last is kept. -/
def Keyring.get? (C : Crypto) (ring : Keyring) (keyId : List Char) : Option (List UInt8) :=
  ring.keys.reverse.find? fun key => C.keyId key == keyId

/-- `os.urandom(12)`. -/
abbrev Nonce := {bytes : List UInt8 // bytes.length = 12}

def format : List Char := ['v', '1']

/-- `Keyring.encrypt`; the current key is always there. -/
def Keyring.encrypt (C : Crypto) (ring : Keyring) (nonce : Nonce)
    (plaintext context : List Char) : List Char :=
  let keyId := C.keyId ring.current
  let key := (ring.get? C keyId).getD ring.current
  let sealed := C.encrypt key nonce.val (utf8 plaintext) (utf8 context)
  format ++ ':' :: (keyId ++ ':' :: Base64.encode (nonce.val ++ sealed))

/-- `token.split(":", 2)`, when it has three parts. -/
def splitToken (token : List Char) : Option (List Char × List Char × List Char) :=
  match token.dropWhile (· ≠ ':') with
  | [] => none
  | _ :: rest =>
      match rest.dropWhile (· ≠ ':') with
      | [] => none
      | _ :: body => some (token.takeWhile (· ≠ ':'), rest.takeWhile (· ≠ ':'), body)

/-- `Keyring.decrypt`. -/
def Keyring.decrypt (C : Crypto) (ring : Keyring) (token context : List Char) :
    Except VaultError (List Char) :=
  match splitToken token with
  | none => .error (.secretResolutionError "Stored secret is malformed.")
  | some (version, keyId, body) =>
      if version ≠ format then
        .error (.secretResolutionError
          ("Unsupported stored secret format: " ++ String.ofList version))
      else
        match ring.get? C keyId with
        | none => .error (.secretResolutionError
            "Stored secret was encrypted with a key that is no longer configured.")
        | some key =>
            match Base64.decode body with
            | none => .error .encodingError
            | some blob =>
                match C.decrypt key (blob.take 12) (blob.drop 12) (utf8 context) with
                | none => .error (.secretResolutionError
                    "Stored secret failed authentication; it was altered or moved.")
                | some plaintext =>
                    match ofUtf8? plaintext with
                    | none => .error .encodingError
                    | some text => .ok text

/-! ## The vault -/

/-- Where a credential is put. -/
structure Slot where
  tenantId : List Char
  siteId : List Char
  name : List Char
  deriving DecidableEq, Repr

/-- `StoredSecret`. -/
structure StoredSecret where
  slot : Slot
  ciphertext : List Char := []
  erased : Bool := false
  deriving DecidableEq, Repr

/-- What `StoredSecret` asks of a slot. -/
def Slot.Storable (slot : Slot) : Prop :=
  slot.tenantId ≠ [] ∧ slot.siteId ≠ [] ∧ slot.name ≠ [] ∧ slot.name.length ≤ 100

instance (slot : Slot) : Decidable slot.Storable :=
  inferInstanceAs (Decidable (_ ∧ _ ∧ _ ∧ _))

/-- A record with its owner. -/
structure VaultRecord where
  tenantId : Option (List Char)
  siteId : Option (List Char)
  payload : StoredSecret
  deriving DecidableEq, Repr

abbrev Records := Repository Unit fun _ => VaultRecord

/-- `_context`. -/
def contextOf (tenantId siteId name : List Char) : List Char :=
  format ++ '|' :: (tenantId ++ '|' :: (siteId ++ '|' :: name))

def aggregateId (siteId name : List Char) : String := String.ofList (siteId ++ '/' :: name)

/-- `reference_for`; a `SecretRef` takes 200 characters. -/
def referenceFor (siteId name : List Char) : Except VaultError SecretRef :=
  if (aggregateId siteId name).length ≤ 200 then .ok ⟨.database, aggregateId siteId name⟩
  else .error .validationError

/-- `SecretVault.put`, with the records it leaves. -/
def put (C : Crypto) (ring : Keyring) (nonce : Nonce) (records : Records) (slot : Slot)
    (value : List Char) : Except VaultError SecretRef × Records :=
  if strip value = [] then
    (.error (.valueError s!"The value for {String.ofList slot.name} must not be empty."), records)
  else
    let ciphertext :=
      ring.encrypt C nonce value (contextOf slot.tenantId slot.siteId slot.name)
    if ¬slot.Storable then (.error .validationError, records)
    else
      let id := aggregateId slot.siteId slot.name
      let stored : StoredSecret := { slot := slot, ciphertext := ciphertext }
      let record : VaultRecord := ⟨some slot.tenantId, some slot.siteId, stored⟩
      let written := match records.current () id with
        | none => records.apply (.create () id record)
        | some (_, version) => records.apply (.replace () id record version)
      match written with
      | .error refusal => (.error (.persistence refusal), records)
      | .ok records' => (referenceFor slot.siteId slot.name, records')

/-- `aggregate_id.partition("/")`, without the slash. -/
def partition (id : String) : List Char × List Char :=
  (id.toList.takeWhile (· ≠ '/'), (id.toList.dropWhile (· ≠ '/')).drop 1)

/-- `SecretVault.get`. -/
def get (C : Crypto) (ring : Keyring) (records : Records) (id : String) :
    Except VaultError (List Char) :=
  match records.current () id with
  | none => .error (.secretResolutionError ("Secret is not configured: " ++ id))
  | some (record, _) =>
      if record.payload.erased then
        .error (.secretResolutionError ("This credential was disconnected: " ++ id))
      else
        ring.decrypt C record.payload.ciphertext
          (contextOf (record.tenantId.getD []) (partition id).1 (partition id).2)

/-- `SecretVault.erase`. -/
def erase (records : Records) (id : String) : Except VaultError Records :=
  match records.current () id with
  | none => .ok records
  | some (record, version) =>
      let tombstone := { record.payload with ciphertext := [], erased := true }
      match records.apply (.replace () id { record with payload := tombstone } version) with
      | .error refusal => .error (.persistence refusal)
      | .ok records => .ok records

/-! ## Sealing -/

section Sealing
variable {C : Crypto} {ring ring' : Keyring} {nonce : Nonce} {value context context' : List Char}

/-- The ids of the keys tell them apart. -/
def Keyring.DistinctIds (C : Crypto) (ring : Keyring) : Prop :=
  ∀ key ∈ ring.keys, ∀ key' ∈ ring.keys, C.keyId key = C.keyId key' → key = key'

/-- New keys come, the old ones are kept. -/
def Rotates (ring ring' : Keyring) : Prop := ∀ key ∈ ring.keys, key ∈ ring'.keys

/-- Any sequence of rotations keeps the keys. -/
theorem rotates_all (h : Relation.ReflTransGen Rotates ring ring') : Rotates ring ring' := by
  induction h with
  | refl => exact fun _ hkey => hkey
  | tail _ hlast ih => exact fun key hkey => hlast key (ih key hkey)

theorem Keyring.current_mem (ring : Keyring) : ring.current ∈ ring.keys :=
  List.head_mem ring.ne_nil

theorem get?_of_mem {key : List UInt8} (h : ring.DistinctIds C) (hkey : key ∈ ring.keys) :
    ring.get? C (C.keyId key) = some key := by
  unfold Keyring.get?
  obtain ⟨found, hfound⟩ : ∃ found, ring.keys.reverse.find? (C.keyId · == C.keyId key) =
      some found :=
    Option.isSome_iff_exists.mp (List.find?_isSome.mpr
      ⟨key, List.mem_reverse.mpr hkey, beq_iff_eq.mpr rfl⟩)
  have hsame := beq_iff_eq.mp (List.find?_some (p := (C.keyId · == C.keyId key)) hfound)
  rw [hfound, h found (List.mem_reverse.mp (List.mem_of_find?_eq_some hfound)) key hkey hsame]

/-- A value is sealed under a key of the ring that has the current id. -/
theorem sealing_key (C : Crypto) (ring : Keyring) : ∃ key ∈ ring.keys,
    (ring.get? C (C.keyId ring.current)).getD ring.current = key ∧
      C.keyId key = C.keyId ring.current := by
  cases hfound : ring.get? C (C.keyId ring.current) with
  | none => exact ⟨_, ring.current_mem, rfl, rfl⟩
  | some key =>
      refine ⟨key, List.mem_reverse.mp (List.mem_of_find?_eq_some hfound), rfl, ?_⟩
      exact beq_iff_eq.mp (List.find?_some (p := (C.keyId · == C.keyId ring.current)) hfound)

theorem splitToken_sealed (keyId body : List Char) (h : ':' ∉ keyId) :
    splitToken (format ++ ':' :: (keyId ++ ':' :: body)) = some (format, keyId, body) := by
  have hall : ∀ c ∈ keyId, decide (c ≠ ':') = true := fun c hc =>
    decide_eq_true fun heq => h (heq ▸ hc)
  have hformat : ∀ c ∈ format, decide (c ≠ ':') = true := by simp [format]
  unfold splitToken
  rw [List.dropWhile_append_of_pos hformat, List.dropWhile_cons_of_neg (by decide),
    List.takeWhile_append_of_pos hformat, List.takeWhile_cons_of_neg (by decide)]
  dsimp only
  rw [List.dropWhile_append_of_pos hall, List.dropWhile_cons_of_neg (by decide),
    List.takeWhile_append_of_pos hall, List.takeWhile_cons_of_neg (by decide), List.append_nil,
    List.append_nil]

theorem utf8_injective (h : utf8 context = utf8 context') : context = context' := by
  have hread := congrArg ofUtf8? h
  rw [ofUtf8?_utf8, ofUtf8?_utf8] at hread
  exact Option.some.inj hread

/-- What is sealed under one of the keys is read back with the same associated data, and with
no other. -/
theorem decrypt_encrypt (hids : ring'.DistinctIds C) (hkeys : Rotates ring ring') :
    ring'.decrypt C (ring.encrypt C nonce value context) context' =
      if context' = context then .ok value
      else .error (.secretResolutionError
        "Stored secret failed authentication; it was altered or moved.") := by
  obtain ⟨key, hmem, hkey, hid⟩ := sealing_key C ring
  have hfound : ring'.get? C (C.keyId ring.current) = some key := by
    rw [← hid]
    exact get?_of_mem hids (hkeys key hmem)
  unfold Keyring.encrypt Keyring.decrypt
  dsimp only
  rw [splitToken_sealed _ _ (C.keyId_plain _)]
  dsimp only
  rw [if_neg (not_not_intro rfl), hfound, Base64.decode_encode]
  dsimp only
  rw [List.take_left' nonce.property, List.drop_left' nonce.property, hkey]
  by_cases hsame : context' = context
  · rw [hsame, C.decrypt_same, if_pos rfl]
    dsimp only
    rw [ofUtf8?_utf8]
  · rw [C.decrypt_other _ _ _ _ _ fun heq => hsame (utf8_injective heq), if_neg hsame]

end Sealing

/-! ## Putting and getting -/

section Records
variable {C : Crypto} {ring ring' : Keyring} {nonce : Nonce} {records records' : Records}
  {slot other : Slot} {value : List Char} {ref : SecretRef} {id : String}

/-- A slot that a credential can be put in, and referred to. -/
def Slot.Accepted (slot : Slot) : Prop :=
  slot.Storable ∧ (aggregateId slot.siteId slot.name).length ≤ 200

instance (slot : Slot) : Decidable slot.Accepted := inferInstanceAs (Decidable (_ ∧ _))

/-- The associated data that a credential is sealed with. -/
def Slot.context (slot : Slot) : List Char := contextOf slot.tenantId slot.siteId slot.name

/-- The associated data that a slot is read with. -/
def Slot.readContext (slot : Slot) : List Char :=
  contextOf slot.tenantId (partition (aggregateId slot.siteId slot.name)).1
    (partition (aggregateId slot.siteId slot.name)).2

/-- What is kept of a credential. -/
def storedOf (C : Crypto) (ring : Keyring) (nonce : Nonce) (slot : Slot) (value : List Char) :
    StoredSecret :=
  { slot := slot, ciphertext := ring.encrypt C nonce value slot.context }

/-- A stored credential in the record of a slot. -/
def recordIn (slot : Slot) (stored : StoredSecret) : VaultRecord :=
  ⟨some slot.tenantId, some slot.siteId, stored⟩

/-- A credential that is put stands in its record, the newest of its id. -/
theorem put_spec (haccepted : slot.Accepted) (hvalue : strip value ≠ []) :
    put C ring nonce records slot value =
      (.ok ⟨.database, aggregateId slot.siteId slot.name⟩,
        records.append () (aggregateId slot.siteId slot.name)
          (recordIn slot (storedOf C ring nonce slot value))) := by
  unfold put
  rw [if_neg hvalue]
  dsimp only
  rw [if_neg (not_not_intro haccepted.1), referenceFor, if_pos haccepted.2]
  cases hcurrent : records.current () (aggregateId slot.siteId slot.name) with
  | none =>
      have hfresh := Repository.current_eq_none_iff.mp hcurrent
      simp only [Repository.apply, hfresh, if_true]
      rfl
  | some found =>
      obtain ⟨record, version⟩ := found
      obtain ⟨hat, hversion⟩ := Repository.current_eq_some_iff.mp hcurrent
      have hpresent : records.versions () (aggregateId slot.siteId slot.name) ≠ [] := by
        intro hnil
        rw [Repository.current_eq_none_iff.mpr hnil] at hcurrent
        cases hcurrent
      simp only [Repository.apply, if_neg hpresent, hversion, if_true]
      rfl

/-- A credential that stands in the record of a slot is read if and only if it was sealed with
the associated data of that slot. -/
theorem get_spec {version : Nat} (hids : ring'.DistinctIds C) (hkeys : Rotates ring ring')
    (hcurrent : records.current () (aggregateId other.siteId other.name) =
      some (recordIn other (storedOf C ring nonce slot value), version)) :
    get C ring' records (aggregateId other.siteId other.name) =
      if other.readContext = slot.context then .ok value
      else .error (.secretResolutionError
        "Stored secret failed authentication; it was altered or moved.") := by
  unfold get
  rw [hcurrent]
  dsimp only
  exact decrypt_encrypt hids hkeys

/-- A credential that is disconnected is read no more. -/
theorem get_erase (h : erase records id = .ok records')
    (hthere : records.current () id ≠ none) :
    get C ring records' id =
      .error (.secretResolutionError ("This credential was disconnected: " ++ id)) := by
  unfold erase at h
  split at h
  · next hnone => exact absurd hnone hthere
  · next record version hsome =>
      dsimp only at h
      split at h
      · cases h
      · next written hwritten =>
          obtain ⟨-, rfl⟩ := Repository.apply_replace hwritten
          obtain rfl := Except.ok.inj h
          unfold get
          rw [Repository.current_append_self]
          rfl

end Records

end SeoAgent.Vault
