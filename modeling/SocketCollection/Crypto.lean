import SocketCollection.Basic

/-!
# Encryption contexts

`crypto.rs`: the contexts that serialise and encrypt outgoing values, and
decrypt and deserialise incoming ones.

The serialisation (`maidsafe_utilities`, which is bincode) and the encryption
(`safe_crypto`) are crates outside this repository.  They enter as
parameters: `Crates` holds their key and error types, `Serde` what they do
with the values of one message type.  Encryption draws randomness, so the
encrypting functions take the `Nonce` they draw.

What the sockets rely on is stated separately, as `LawfulSerde` (what was
encrypted under one half of a matching pair of contexts is decrypted by the
other) and `LawfulSizeHeader` (an encrypted `u32` has the constant length the
two length constants of the file say).  A theorem that needs neither holds
for any library at all.
-/

namespace SocketCollection

/-- The types of the crates the sockets are built on, and which keys belong
together. -/
structure Crates where
  SharedSecretKey : Type
  PublicEncryptKey : Type
  SecretEncryptKey : Type
  Nonce : Type
  SerialisationError : Type
  CryptoError : Type
  /-- The two ends of a connection computed the same secret. -/
  SameSecret : SharedSecretKey → SharedSecretKey → Prop
  /-- A public key and the secret key generated with it. -/
  KeyPair : PublicEncryptKey → SecretEncryptKey → Prop

/-- A message type `T: Serialize + DeserializeOwned`: what bincode and
`safe_crypto` do with its values. -/
class Serde (L : Crates) (T : Type) where
  serialise : T → Except L.SerialisationError Bytes
  deserialise : Bytes → Except L.SerialisationError T
  encrypt : L.SharedSecretKey → L.Nonce → T → Except L.CryptoError Bytes
  decrypt : L.SharedSecretKey → Bytes → Except L.CryptoError T
  anonymouslyEncrypt : L.PublicEncryptKey → L.Nonce → T → Except L.CryptoError Bytes
  anonymouslyDecrypt : L.SecretEncryptKey → Bytes → L.PublicEncryptKey →
    Except L.CryptoError T

/-- `SocketError`, without the variants of the disabled UDT sockets. -/
inductive SocketError (L : Crates)
  | io (e : IoError)
  | uninitialisedSocket
  | payloadSizeProhibitive
  | serialisation (e : L.SerialisationError)
  | zeroByteRead
  | unconnectedUdpSocket
  | crypto (e : L.CryptoError)

/-- `crate::Res`. -/
abbrev Res (L : Crates) (α : Type) := Except (SocketError L) α

/-- `safe_crypto` always serialises a 32 bit number into 52 bytes. -/
def encryptedU32Len : Nat := 52

/-- bincode serialises a 32 bit number into 4 bytes. -/
def serializedU32Len : Nat := 4

variable {L : Crates} {T : Type}

/-! ## Encryption -/

inductive EncryptContext (L : Crates)
  | null
  | authenticated (sharedKey : L.SharedSecretKey)
  | anonymousEncrypt (theirPk : L.PublicEncryptKey)

namespace EncryptContext

/-- Serialise a value and encrypt it. -/
def encrypt [Serde L T] (ctx : EncryptContext L) (nonce : L.Nonce) (msg : T) :
    Res L Bytes :=
  match ctx with
  | .null => (Serde.serialise msg).mapError .serialisation
  | .authenticated sharedKey => (Serde.encrypt sharedKey nonce msg).mapError .crypto
  | .anonymousEncrypt theirPk =>
      (Serde.anonymouslyEncrypt theirPk nonce msg).mapError .crypto

/-- Encrypting does not touch the operating system. -/
theorem encrypt_ne_io [Serde L T] (ctx : EncryptContext L) (nonce : L.Nonce) (msg : T)
    (e : IoError) : ctx.encrypt nonce msg ≠ .error (.io e) := by
  intro h
  cases ctx with
  | null =>
      cases hs : Serde.serialise (L := L) msg <;> simp [encrypt, hs, Except.mapError] at h
  | authenticated k =>
      cases hs : Serde.encrypt k nonce msg <;> simp [encrypt, hs, Except.mapError] at h
  | anonymousEncrypt pk =>
      cases hs : Serde.anonymouslyEncrypt pk nonce msg <;>
        simp [encrypt, hs, Except.mapError] at h

def encryptedSizeLen : EncryptContext L → Nat
  | .null => serializedU32Len
  | .authenticated _ => encryptedU32Len
  | .anonymousEncrypt _ => encryptedU32Len

end EncryptContext

/-! ## Decryption -/

inductive DecryptContext (L : Crates)
  | null
  | authenticated (sharedKey : L.SharedSecretKey)
  | anonymousDecrypt (ourPk : L.PublicEncryptKey) (ourSk : L.SecretEncryptKey)

namespace DecryptContext

/-- Decrypt a buffer and deserialise it. -/
def decrypt [Serde L T] (ctx : DecryptContext L) (msg : Bytes) : Res L T :=
  match ctx with
  | .null => (Serde.deserialise msg).mapError .serialisation
  | .authenticated sharedKey => (Serde.decrypt sharedKey msg).mapError .crypto
  | .anonymousDecrypt ourPk ourSk =>
      (Serde.anonymouslyDecrypt ourSk msg ourPk).mapError .crypto

def encryptedSizeLen : DecryptContext L → Nat
  | .null => serializedU32Len
  | .authenticated _ => encryptedU32Len
  | .anonymousDecrypt _ _ => encryptedU32Len

/-- What goes wrong in decrypting is the serialisation or the encryption. -/
theorem decrypt_error [Serde L T] {ctx : DecryptContext L} {msg : Bytes} {e : SocketError L}
    (h : ctx.decrypt (T := T) msg = .error e) :
    (∃ x, e = .serialisation x) ∨ ∃ x, e = .crypto x := by
  cases ctx with
  | null =>
      cases hs : Serde.deserialise (L := L) (T := T) msg with
      | ok v => simp [decrypt, hs, Except.mapError] at h
      | error x =>
          simp only [decrypt, hs, Except.mapError, Except.error.injEq] at h
          exact .inl ⟨x, h.symm⟩
  | authenticated k =>
      cases hs : Serde.decrypt (T := T) k msg with
      | ok v => simp [decrypt, hs, Except.mapError] at h
      | error x =>
          simp only [decrypt, hs, Except.mapError, Except.error.injEq] at h
          exact .inr ⟨x, h.symm⟩
  | anonymousDecrypt pk sk =>
      cases hs : Serde.anonymouslyDecrypt (T := T) sk msg pk with
      | ok v => simp [decrypt, hs, Except.mapError] at h
      | error x =>
          simp only [decrypt, hs, Except.mapError, Except.error.injEq] at h
          exact .inr ⟨x, h.symm⟩

/-- Decrypting does not touch the operating system. -/
theorem decrypt_ne_io [Serde L T] (ctx : DecryptContext L) (msg : Bytes) (e : IoError) :
    ctx.decrypt (T := T) msg ≠ .error (.io e) := by
  intro h
  rcases decrypt_error h with ⟨x, hx⟩ | ⟨x, hx⟩ <;> cases hx

/-- A length header is never empty, so taking one always makes progress. -/
theorem encryptedSizeLen_pos (ctx : DecryptContext L) : 0 < ctx.encryptedSizeLen := by
  cases ctx <;> simp [encryptedSizeLen, serializedU32Len, encryptedU32Len]

end DecryptContext

/-! ## Matching contexts -/

/-- The decryption context with which a peer reads what was encrypted under an
encryption context. -/
inductive Matching : EncryptContext L → DecryptContext L → Prop
  | null : Matching .null .null
  | authenticated {k k' : L.SharedSecretKey} (h : L.SameSecret k k') :
      Matching (.authenticated k) (.authenticated k')
  | anonymous {pk : L.PublicEncryptKey} {sk : L.SecretEncryptKey} (h : L.KeyPair pk sk) :
      Matching (.anonymousEncrypt pk) (.anonymousDecrypt pk sk)

theorem Matching.encryptedSizeLen_eq {enc : EncryptContext L} {dec : DecryptContext L}
    (h : Matching enc dec) : dec.encryptedSizeLen = enc.encryptedSizeLen := by
  cases h <;> rfl

/-- bincode round-trips the values of `T`, and `safe_crypto` decrypts what the
matching key encrypted. -/
class LawfulSerde (L : Crates) (T : Type) [Serde L T] : Prop where
  deserialise_serialise : ∀ (v : T) (b : Bytes),
    Serde.serialise (L := L) v = .ok b → Serde.deserialise (L := L) b = .ok v
  decrypt_encrypt : ∀ (k k' : L.SharedSecretKey) (n : L.Nonce) (v : T) (b : Bytes),
    L.SameSecret k k' → Serde.encrypt k n v = .ok b → Serde.decrypt k' b = .ok v
  anonymouslyDecrypt_encrypt :
    ∀ (pk : L.PublicEncryptKey) (sk : L.SecretEncryptKey) (n : L.Nonce) (v : T) (b : Bytes),
      L.KeyPair pk sk → Serde.anonymouslyEncrypt pk n v = .ok b →
        Serde.anonymouslyDecrypt sk b pk = .ok v

/-- A `u32` is serialised into 4 bytes and encrypted into 52, whatever its
value. -/
class LawfulSizeHeader (L : Crates) [Serde L UInt32] : Prop where
  serialise_length : ∀ (v : UInt32) (b : Bytes),
    Serde.serialise (L := L) v = .ok b → b.length = serializedU32Len
  encrypt_length : ∀ (k : L.SharedSecretKey) (n : L.Nonce) (v : UInt32) (b : Bytes),
    Serde.encrypt k n v = .ok b → b.length = encryptedU32Len
  anonymouslyEncrypt_length :
    ∀ (pk : L.PublicEncryptKey) (n : L.Nonce) (v : UInt32) (b : Bytes),
      Serde.anonymouslyEncrypt pk n v = .ok b → b.length = encryptedU32Len

private theorem of_mapError_ok {E F α : Type} {f : E → F} {x : Except E α} {a : α}
    (h : x.mapError f = .ok a) : x = .ok a := by
  cases x with
  | error e => simp [Except.mapError] at h
  | ok b => simpa [Except.mapError] using h

/-- **A matching context undoes encryption.** -/
theorem Matching.decrypt_encrypt [Serde L T] [LawfulSerde L T]
    {enc : EncryptContext L} {dec : DecryptContext L} (h : Matching enc dec)
    {nonce : L.Nonce} {v : T} {b : Bytes} (hb : enc.encrypt nonce v = .ok b) :
    dec.decrypt b = .ok v := by
  cases h with
  | null =>
      have hs := LawfulSerde.deserialise_serialise v b (of_mapError_ok hb)
      simp [DecryptContext.decrypt, hs, Except.mapError]
  | authenticated hk =>
      have hs := LawfulSerde.decrypt_encrypt _ _ _ v b hk (of_mapError_ok hb)
      simp [DecryptContext.decrypt, hs, Except.mapError]
  | anonymous hk =>
      have hs := LawfulSerde.anonymouslyDecrypt_encrypt _ _ _ v b hk (of_mapError_ok hb)
      simp [DecryptContext.decrypt, hs, Except.mapError]

/-- **An encrypted length has the announced constant length.** -/
theorem EncryptContext.encrypt_u32_length [Serde L UInt32] [LawfulSizeHeader L]
    {enc : EncryptContext L} {nonce : L.Nonce} {v : UInt32} {b : Bytes}
    (hb : enc.encrypt nonce v = .ok b) : b.length = enc.encryptedSizeLen := by
  cases enc with
  | null => exact LawfulSizeHeader.serialise_length v b (of_mapError_ok hb)
  | authenticated k => exact LawfulSizeHeader.encrypt_length k nonce v b (of_mapError_ok hb)
  | anonymousEncrypt pk =>
      exact LawfulSizeHeader.anonymouslyEncrypt_length pk nonce v b (of_mapError_ok hb)

/-! ## Configuration -/

/-- Priority of a message.  A lower value means a higher priority. -/
abbrev Priority := UInt8

def defaultMaxPayloadSize : Nat := 2 * 1024 * 1024
def defaultMsgDropPriority : Priority := 2
def defaultMaxMsgAgeSecs : Nat := 60

/-- `SocketConfig`. -/
structure SocketConfig (L : Crates) where
  maxPayloadSize : Nat
  msgDropPriority : Priority
  maxMsgAgeSecs : Nat
  encCtx : EncryptContext L
  decCtx : DecryptContext L

/-- `SocketConfig::default()`. -/
def SocketConfig.default : SocketConfig L where
  maxPayloadSize := defaultMaxPayloadSize
  msgDropPriority := defaultMsgDropPriority
  maxMsgAgeSecs := defaultMaxMsgAgeSecs
  encCtx := .null
  decCtx := .null

end SocketCollection
