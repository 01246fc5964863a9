import Mathlib
import SocketCollection.Crypto

/-!
# A concrete instance of the crates

An instance of `Crates` that runs.  Serialisation is bincode's fixed-width
little-endian encoding of the values built from `()`, `u32` and pairs, which
encodes `()` in no bytes at all and rejects left-over bytes when reading back.
Encryption puts the 48 bytes of overhead that both schemes of `safe_crypto`
have in front of the serialised value, 16 of them a tag made from the key, and
decryption fails unless the tag is that of the key.

The instance satisfies everything the sockets assume of the crates
(`LawfulSerde`, `LawfulSizeHeader`), so those assumptions are consistent, and
concrete runs of the model can be evaluated with it.
-/

namespace SocketCollection.BincodeInstance

/-! ## Little-endian numbers -/

/-- The `width` low bytes of a number, least significant first. -/
def leBytes : Nat → Nat → Bytes
  | 0, _ => []
  | width + 1, n => UInt8.ofNat n :: leBytes width (n / 256)

/-- The number some bytes stand for. -/
def leNat : Bytes → Nat
  | [] => 0
  | b :: rest => b.toNat + 256 * leNat rest

@[simp] theorem length_leBytes (width : Nat) : ∀ n, (leBytes width n).length = width := by
  induction width with
  | zero => intro n; rfl
  | succ width ih => intro n; simp [leBytes, ih]

theorem leNat_leBytes (width : Nat) : ∀ n, leNat (leBytes width n) = n % 256 ^ width := by
  induction width with
  | zero => intro n; simp [leBytes, leNat, Nat.mod_one]
  | succ width ih =>
      intro n
      have hlow : (UInt8.ofNat n).toNat = n % 256 := UInt8.toNat_ofNat'
      have hsplit := Nat.mod_mul (x := n) (a := 256) (b := 256 ^ width)
      rw [leBytes, leNat, ih, hlow, Nat.pow_succ', hsplit]

/-! ## bincode -/

/-- A type with a bincode encoding: `decode` reads one value off the front. -/
class Bincode (T : Type) where
  encode : T → Bytes
  decode : Bytes → Option (T × Bytes)
  decode_encode : ∀ v rest, decode (encode v ++ rest) = some (v, rest)

instance : Bincode Unit where
  encode _ := []
  decode b := some ((), b)
  decode_encode _ _ := rfl

/-- `u32` is four bytes, least significant first. -/
instance : Bincode UInt32 where
  encode v := leBytes 4 v.toNat
  decode b := if b.length < 4 then none else some (UInt32.ofNat (leNat (b.take 4)), b.drop 4)
  decode_encode v rest := by
    have hmod : v.toNat % 256 ^ 4 = v.toNat := Nat.mod_eq_of_lt v.toNat_lt
    have htake : (leBytes 4 v.toNat ++ rest).take 4 = leBytes 4 v.toNat := by
      rw [List.take_left' (length_leBytes 4 v.toNat)]
    have hdrop : (leBytes 4 v.toNat ++ rest).drop 4 = rest := by
      rw [List.drop_left' (length_leBytes 4 v.toNat)]
    have hlen : ¬ (leBytes 4 v.toNat ++ rest).length < 4 := by simp
    rw [if_neg hlen, htake, hdrop, leNat_leBytes, hmod, UInt32.ofNat_toNat]

instance {A B : Type} [Bincode A] [Bincode B] : Bincode (A × B) where
  encode v := Bincode.encode v.1 ++ Bincode.encode v.2
  decode b := do
    let (x, b) ← Bincode.decode b
    let (y, b) ← Bincode.decode b
    return ((x, y), b)
  decode_encode v rest := by
    rw [List.append_assoc, Bincode.decode_encode]
    simp [Bincode.decode_encode]

/-- What can go wrong when reading back. -/
inductive CodecError
  | malformed
  | extraBytes
  | decryptVerify
  deriving DecidableEq, Repr

def serialise {T : Type} [Bincode T] (v : T) : Except CodecError Bytes :=
  .ok (Bincode.encode v)

def deserialise {T : Type} [Bincode T] (b : Bytes) : Except CodecError T :=
  match Bincode.decode b with
  | none => .error .malformed
  | some (v, []) => .ok v
  | some (_, _ :: _) => .error .extraBytes

theorem deserialise_encode {T : Type} [Bincode T] (v : T) :
    deserialise (Bincode.encode v) = .ok v := by
  have h := Bincode.decode_encode v []
  rw [List.append_nil] at h
  simp [deserialise, h]

/-! ## Sealed values -/

/-- 32 bytes that depend on the randomness, then a 16 byte tag. -/
def sealed (key nonce : UInt8) (body : Bytes) : Bytes :=
  List.replicate 32 nonce ++ (List.replicate 16 key ++ body)

def unsealed (key : UInt8) (b : Bytes) : Except CodecError Bytes :=
  if (b.drop 32).take 16 = List.replicate 16 key then .ok (b.drop 48)
  else .error .decryptVerify

theorem unsealed_sealed (key nonce : UInt8) (body : Bytes) :
    unsealed key (sealed key nonce body) = .ok body := by
  have hdrop : (sealed key nonce body).drop 32 = List.replicate 16 key ++ body := by
    rw [sealed, List.drop_left' (List.length_replicate ..)]
  have htag : ((sealed key nonce body).drop 32).take 16 = List.replicate 16 key := by
    rw [hdrop, List.take_left' (List.length_replicate ..)]
  have hbody : (sealed key nonce body).drop 48 = body := by
    rw [show 48 = 32 + 16 by rfl, ← List.drop_drop, hdrop,
      List.drop_left' (List.length_replicate ..)]
  rw [unsealed, if_pos htag, hbody]

def encrypt {T : Type} [Bincode T] (key nonce : UInt8) (v : T) : Except CodecError Bytes :=
  .ok (sealed key nonce (Bincode.encode v))

def decrypt {T : Type} [Bincode T] (key : UInt8) (b : Bytes) : Except CodecError T := do
  deserialise (← unsealed key b)

theorem decrypt_sealed {T : Type} [Bincode T] (key nonce : UInt8) (v : T) :
    decrypt key (sealed key nonce (Bincode.encode v)) = .ok v := by
  simp [decrypt, unsealed_sealed, bind, Except.bind, deserialise_encode]

/-! ## The instance -/

/-- Keys and randomness are one byte; equal keys belong together. -/
def crates : Crates where
  SharedSecretKey := UInt8
  PublicEncryptKey := UInt8
  SecretEncryptKey := UInt8
  Nonce := UInt8
  SerialisationError := CodecError
  CryptoError := CodecError
  SameSecret k k' := k = k'
  KeyPair pk sk := pk = sk

instance {T : Type} [Bincode T] : Serde crates T where
  serialise := serialise
  deserialise := deserialise
  encrypt := encrypt
  decrypt := decrypt
  anonymouslyEncrypt := encrypt
  anonymouslyDecrypt sk b _ := decrypt sk b

instance {T : Type} [Bincode T] : LawfulSerde crates T where
  deserialise_serialise v b h := by
    obtain rfl : Bincode.encode v = b := Except.ok.inj h
    exact deserialise_encode v
  decrypt_encrypt k k' n v b hk h := by
    obtain rfl : k = k' := hk
    obtain rfl : sealed k n (Bincode.encode v) = b := Except.ok.inj h
    exact decrypt_sealed k n v
  anonymouslyDecrypt_encrypt pk sk n v b hk h := by
    obtain rfl : pk = sk := hk
    obtain rfl : sealed pk n (Bincode.encode v) = b := Except.ok.inj h
    exact decrypt_sealed pk n v

theorem length_sealed_u32 (key nonce : UInt8) (v : UInt32) :
    (sealed key nonce (Bincode.encode v)).length = encryptedU32Len := by
  simp [sealed, Bincode.encode, encryptedU32Len]

instance : LawfulSizeHeader crates where
  serialise_length v b h := by
    obtain rfl : Bincode.encode v = b := Except.ok.inj h
    exact length_leBytes 4 v.toNat
  encrypt_length k n v b h := by
    obtain rfl : sealed k n (Bincode.encode v) = b := Except.ok.inj h
    exact length_sealed_u32 k n v
  anonymouslyEncrypt_length pk n v b h := by
    obtain rfl : sealed pk n (Bincode.encode v) = b := Except.ok.inj h
    exact length_sealed_u32 pk n v

end SocketCollection.BincodeInstance
