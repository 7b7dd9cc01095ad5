/-
  Sealed values, byte for byte (`store/crypto.rs`).

  * XChaCha20-Poly1305 is an ideal `Aead`, and the random nonce of a sealing is
    given to it;
  * a key ring has its active key (`active_mem`), so that sealing is total;
  * `open_seal_iff`: what opens a sealed value;
  * `sealed_stays`: values do not open elsewhere, for the contexts of all the
    sealed columns.
-/
import SessionBroker.Db
import SessionBroker.Lib.Aead

namespace SessionBroker

namespace Crypto

/-! ## Key rings -/

abbrev KeyBytes := { key : Bytes // key.length = 32 }

/-- A nonce of `NONCE_LEN` bytes. -/
abbrev Nonce := { nonce : Bytes // nonce.length = 24 }

abbrev Cipher := Aead KeyBytes Nonce Bytes Bytes Bytes

/-- `FORMAT_V1`. -/
def formatV1 : UInt8 := 1

structure KeyRing where
  active : UInt8
  keys : UInt8 → Option KeyBytes
  active_mem : (keys active).isSome

/-- The ids in the order of a `BTreeMap`. -/
def allIds : List UInt8 := (List.range 256).map UInt8.ofNat

theorem mem_allIds (id : UInt8) : id ∈ allIds := by
  rw [allIds, List.mem_map]
  exact ⟨id.toNat, List.mem_range.2 id.toNat_lt, UInt8.ofNat_toNat⟩

namespace KeyRing

/-- `KeyRing::single`. -/
def single (id : UInt8) (key : KeyBytes) : KeyRing where
  active := id
  keys i := if i = id then some key else none
  active_mem := by simp

/-- `self.keys[&self.active]`. -/
def activeKey (ring : KeyRing) : KeyBytes := (ring.keys ring.active).get ring.active_mem

theorem keys_active (ring : KeyRing) : ring.keys ring.active = some ring.activeKey :=
  (Option.some_get ring.active_mem).symm

/-- `KeyRing::aad`. -/
def aad (kid : UInt8) (context : Bytes) : Bytes := formatV1 :: kid :: context

end KeyRing

/-- `KeyRing::seal`. -/
def KeyRing.seal (cipher : Cipher) (ring : KeyRing) (nonce : Nonce) (plaintext context : Bytes) : Bytes :=
  formatV1 :: ring.active ::
    (nonce.1 ++ cipher.encrypt ring.activeKey nonce (aad ring.active context) plaintext)

/-- Why a value does not open. -/
inductive OpenError where
  | short (len : ℕ)
  | unknownFormat (byte : UInt8)
  | unknownKey (kid : UInt8)
  | failedAuthentication
deriving DecidableEq, Repr

def OpenError.message : OpenError → String
  | short len => "sealed value is " ++ toString len ++ " bytes, shorter than its " ++ toString 26 ++
    "-byte header and nonce"
  | unknownFormat byte => "sealed value has unknown format byte " ++ toString byte
  | unknownKey kid => "sealed under key id " ++ toString kid ++ ", which is not in the keyfile — " ++
    "it was removed too early, or this is another deployment's database"
  | failedAuthentication => "custody value failed authenticated decryption (wrong key, wrong row, " ++
    "or the row was altered)"

/-- `KeyRing::open`. -/
def KeyRing.open (cipher : Cipher) (ring : KeyRing) (value context : Bytes) : Except OpenError Bytes :=
  match value with
  | format :: kid :: rest =>
    if h : rest.length < 24 then .error (.short value.length)
    else if format ≠ formatV1 then .error (.unknownFormat format)
    else match ring.keys kid with
      | none => .error (.unknownKey kid)
      | some key =>
        let nonce : Nonce := ⟨rest.take 24, List.length_take_of_le (Nat.not_lt.1 h)⟩
        match cipher.decrypt key nonce (aad kid context) (rest.drop 24) with
        | some plaintext => .ok plaintext
        | none => .error .failedAuthentication
  | _ => .error (.short value.length)

/-- `key_id_of`. -/
def keyIdOf : Bytes → Option UInt8
  | format :: kid :: _ => if format = formatV1 then some kid else none
  | _ => none

namespace KeyRing

variable {cipher : Cipher} {ring ring' : KeyRing} {nonce : Nonce}
  {plaintext plaintext' context context' value : Bytes}

@[simp] theorem keyIdOf_seal :
    keyIdOf (ring.seal cipher nonce plaintext context) = some ring.active := rfl

/-- **Spec of `open`**: what opens was sealed by a ring with the same key under
    the id that the value names. -/
theorem open_eq_ok : ring.open cipher value context = .ok plaintext ↔
    ∃ kid key, ∃ nonce : Nonce, ring.keys kid = some key ∧
      value = formatV1 :: kid :: (nonce.1 ++ cipher.encrypt key nonce (aad kid context) plaintext) := by
  constructor
  · intro h
    unfold KeyRing.open at h
    split at h
    · rename_i format kid rest
      split_ifs at h with hlen hformat
      cases hkey : ring.keys kid with
      | none =>
        rw [hkey] at h
        cases h
      | some key =>
        rw [hkey] at h
        dsimp only at h
        split at h
        · rename_i hdecrypt
          cases h
          have hnonce := List.length_take_of_le (Nat.not_lt.1 hlen)
          refine ⟨kid, key, ⟨rest.take 24, hnonce⟩, hkey, ?_⟩
          rw [← cipher.decrypt_eq_some.1 hdecrypt, List.take_append_drop, not_not.1 hformat]
        · cases h
    · cases h
  · rintro ⟨kid, key, nonce, hkey, rfl⟩
    have hlen : ¬(nonce.1 ++ cipher.encrypt key nonce (aad kid context) plaintext).length < 24 := by
      rw [List.length_append, nonce.2]
      omega
    have htake : (nonce.1 ++ cipher.encrypt key nonce (aad kid context) plaintext).take 24 = nonce.1 :=
      List.take_left' nonce.2
    have hdrop : (nonce.1 ++ cipher.encrypt key nonce (aad kid context) plaintext).drop 24 =
        cipher.encrypt key nonce (aad kid context) plaintext := List.drop_left' nonce.2
    unfold KeyRing.open
    dsimp only
    rw [dif_neg hlen, if_neg (by simp), hkey]
    simp only [htake, hdrop, Aead.decrypt_encrypt]

/-- What opens the bytes that a key made. -/
theorem open_bytes_iff {kid : UInt8} {key : KeyBytes} :
    ring.open cipher
        (formatV1 :: kid :: (nonce.1 ++ cipher.encrypt key nonce (aad kid context) plaintext)) context' =
        .ok plaintext' ↔
      plaintext' = plaintext ∧ context' = context ∧ ring.keys kid = some key := by
  rw [open_eq_ok]
  constructor
  · rintro ⟨kid', key', nonce', hkey, hvalue⟩
    simp only [List.cons.injEq, true_and] at hvalue
    obtain ⟨rfl, hvalue⟩ := hvalue
    obtain ⟨hnonce, hcipher⟩ := List.append_inj hvalue (nonce.2.trans nonce'.2.symm)
    obtain rfl := Subtype.ext hnonce
    obtain ⟨rfl, -, haad, rfl⟩ := cipher.encrypt_inj hcipher
    simp only [aad, List.cons.injEq, true_and] at haad
    exact ⟨rfl, haad.symm, hkey⟩
  · rintro ⟨rfl, rfl, hkey⟩
    exact ⟨kid, key, nonce, hkey, rfl⟩

/-- **What opens a sealed value**: the same context, and a ring with the same key
    under the id in the value. -/
theorem open_seal_iff :
    ring'.open cipher (ring.seal cipher nonce plaintext context) context' = .ok plaintext' ↔
      plaintext' = plaintext ∧ context' = context ∧ ring'.keys ring.active = some ring.activeKey :=
  open_bytes_iff

theorem open_seal : ring.open cipher (ring.seal cipher nonce plaintext context) context =
    .ok plaintext :=
  open_seal_iff.2 ⟨rfl, rfl, ring.keys_active⟩

/-- A ring with more keys opens what it opened. -/
theorem open_of_keys (hkeys : ∀ kid key, ring.keys kid = some key → ring'.keys kid = some key)
    (h : ring.open cipher value context = .ok plaintext) :
    ring'.open cipher value context = .ok plaintext := by
  obtain ⟨kid, key, nonce, hkey, hvalue⟩ := open_eq_ok.1 h
  exact open_eq_ok.2 ⟨kid, key, nonce, hkeys kid key hkey, hvalue⟩

end KeyRing

/-! ## Contexts -/

/-- The sealed columns of the store, by row. -/
inductive Place where
  | refresh (custodyId : String)
  | access (custodyId : String)
  | seed (kid : String)
  | clientSecret (id : String)
deriving DecidableEq, Repr

/-- `as_bytes` and `into_bytes`. -/
def asBytes (text : String) : Bytes := text.toUTF8.data.toList

theorem asBytes_inj {s t : String} : asBytes s = asBytes t ↔ s = t := by
  constructor
  · intro h
    exact String.toByteArray_inj.1 (ByteArray.ext (Array.toList_inj.1 h))
  · rintro rfl
    rfl

def Place.contextText : Place → String
  | refresh custodyId => custodyContext ⟨custodyId⟩ "refresh"
  | access custodyId => custodyContext ⟨custodyId⟩ "access"
  | seed kid => signingSeedContext kid
  | clientSecret id => providerSecretContext id

/-- The context of a column, in bytes. -/
def Place.context (place : Place) : Bytes := asBytes place.contextText

/-- The last letter of a context tells the column. -/
def Place.letter : Place → Char
  | refresh _ => 'h'
  | access _ => 's'
  | seed _ => 'd'
  | clientSecret _ => 't'

theorem Place.getLast_contextText (place : Place) :
    place.contextText.toList.getLast? = some place.letter := by
  cases place <;>
    simp [contextText, letter, custodyContext, signingSeedContext, providerSecretContext,
      List.getLast?_cons]

/-- What stands between two texts is told by the whole. -/
theorem between_inj {before text text' rest : String} (h : before ++ text ++ rest = before ++ text' ++ rest) :
    text = text' := by
  have hchars := congrArg String.toList h
  simp only [String.toList_append] at hchars
  exact String.toList_inj.1 (List.append_cancel_left (List.append_cancel_right hchars))

theorem custody_inj {id id' column : String}
    (h : custodyContext ⟨id⟩ column = custodyContext ⟨id'⟩ column) : id = id' := by
  have hbetween : "custody:" ++ id ++ (":" ++ column) = "custody:" ++ id' ++ (":" ++ column) := by
    simpa only [custodyContext, String.append_assoc] using h
  exact between_inj hbetween

/-- **No two columns share a context**, whatever the ids of their rows. -/
theorem Place.contextText_injective : Function.Injective Place.contextText := by
  intro place place' h
  have hletter : place.letter = place'.letter := by
    rw [← Option.some.injEq, ← getLast_contextText, ← getLast_contextText, h]
  cases place with
  | refresh id =>
    cases place' with
    | refresh id' => rw [custody_inj h]
    | _ => simp [letter] at hletter
  | access id =>
    cases place' with
    | access id' => rw [custody_inj h]
    | _ => simp [letter] at hletter
  | seed kid =>
    cases place' with
    | seed kid' => rw [between_inj h]
    | _ => simp [letter] at hletter
  | clientSecret id =>
    cases place' with
    | clientSecret id' => rw [between_inj h]
    | _ => simp [letter] at hletter

theorem Place.context_inj {place place' : Place} : place.context = place'.context ↔ place = place' :=
  asBytes_inj.trans Place.contextText_injective.eq_iff

/-! ## The ids alone

The database keeps of a sealed value its key id, its context and its text. -/

/-- A value, and what the database keeps of it: the keys that were ever issued
    tell what is under an id. -/
def Represents (cipher : Cipher) (issued : UInt8 → Option KeyBytes) (value : Bytes) : Sealed → Prop
  | .empty => value = []
  | .under kid context plain => ∃ key, ∃ nonce : Nonce, issued kid = some key ∧
    value = formatV1 :: kid ::
      (nonce.1 ++ cipher.encrypt key nonce (KeyRing.aad kid (asBytes context)) plain)

namespace KeyRing

/-- The ring of the database. -/
def ids (ring : KeyRing) : SessionBroker.KeyRing :=
  ⟨ring.active, allIds.filter fun id => (ring.keys id).isSome⟩

theorem mem_ids {ring : KeyRing} {kid : UInt8} : kid ∈ ring.ids.keys ↔ (ring.keys kid).isSome := by
  simp [ids, mem_allIds]

end KeyRing

theorem toOption_eq_some {ε α : Type} {x : Except ε α} {a : α} : x.toOption = some a ↔ x = .ok a := by
  cases x <;> simp [Except.toOption]

section
variable {cipher : Cipher} {issued : UInt8 → Option KeyBytes} {ring : KeyRing} {value : Bytes}
  {sealedValue : Sealed}

theorem Represents.keyIdOf (h : Represents cipher issued value sealedValue) :
    Crypto.keyIdOf value = sealedValue.keyIdOf := by
  cases sealedValue with
  | empty =>
    subst h
    rfl
  | under kid context plain =>
    obtain ⟨key, nonce, -, rfl⟩ := h
    rfl

theorem represents_seal (hring : issued ring.active = some ring.activeKey) (nonce : Nonce)
    (plain : Bytes) (context : String) :
    Represents cipher issued (ring.seal cipher nonce plain (asBytes context))
      (ring.ids.seal plain context) :=
  ⟨ring.activeKey, nonce, hring, rfl⟩

/-- **The database opens what the bytes open.** -/
theorem Represents.open (hring : ∀ kid key, ring.keys kid = some key → issued kid = some key)
    (h : Represents cipher issued value sealedValue) (context : String) :
    (ring.open cipher value (asBytes context)).toOption = ring.ids.open sealedValue context := by
  cases sealedValue with
  | empty =>
    subst h
    rfl
  | under kid sealedFor plain =>
    obtain ⟨key, nonce, hkey, rfl⟩ := h
    have hkeys : kid ∈ ring.ids.keys ↔ ring.keys kid = some key := by
      rw [KeyRing.mem_ids, Option.isSome_iff_exists]
      constructor
      · rintro ⟨key', hkey'⟩
        rw [hkey', ← hring kid key' hkey', hkey]
      · intro hkey'
        exact ⟨key, hkey'⟩
    ext1 plain'
    rw [toOption_eq_some, KeyRing.open_bytes_iff, asBytes_inj]
    unfold SessionBroker.KeyRing.open
    dsimp only
    rw [Option.ite_none_right_eq_some, hkeys, Option.some.injEq]
    constructor
    · rintro ⟨rfl, rfl, hkey'⟩
      exact ⟨⟨hkey', rfl⟩, rfl⟩
    · rintro ⟨⟨hkey', rfl⟩, rfl⟩
      exact ⟨rfl, rfl, hkey'⟩

end

/-- **Sealed values stay where they are.**  A sealed value opens exactly in its
    own context and under its own key, and to what was sealed; and the context
    of a column is no other column's. -/
theorem sealed_stays (cipher : Cipher) :
    (∀ (ring ring' : KeyRing) (nonce : Nonce) (plaintext plaintext' context context' : Bytes),
      ring'.open cipher (ring.seal cipher nonce plaintext context) context' = .ok plaintext' ↔
        plaintext' = plaintext ∧ context' = context ∧ ring'.keys ring.active = some ring.activeKey) ∧
    ∀ place place' : Place, place.context = place'.context ↔ place = place' :=
  ⟨fun _ _ _ _ _ _ _ => KeyRing.open_seal_iff, fun _ _ => Place.context_inj⟩

/-- A refresh token that is copied over the access token of its row. -/
theorem sealed_stays_tokens :
    let ring := KeyRing.single 1 ⟨List.replicate 32 7, rfl⟩
    let value := ring.seal (Aead.transcript 32 24) ⟨List.replicate 24 0, rfl⟩ [116]
      (Place.refresh "c1").context
    ring.open (Aead.transcript 32 24) value (Place.refresh "c1").context = .ok [116] ∧
      ∀ plaintext, ring.open (Aead.transcript 32 24) value (Place.access "c1").context ≠ .ok plaintext := by
  obtain ⟨hopens, hplaces⟩ := sealed_stays (Aead.transcript 32 24)
  refine ⟨(hopens ..).2 ⟨rfl, rfl, rfl⟩, ?_⟩
  intro plaintext h
  exact nomatch (hplaces ..).1 ((hopens ..).1 h).2.1

end Crypto

end SessionBroker
