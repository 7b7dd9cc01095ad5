/-
  Authenticated encryption with associated data, ideal.

  * `Aead`: a ciphertext decrypts, and to its plaintext, exactly under the key,
    the nonce and the associated data that made it, and no two encryptions have
    one ciphertext;
  * `transcript` is an `Aead`: its ciphertext is all that it was given.
-/
import Mathlib.Data.List.Infix

structure Aead (K N A P C : Type*) where
  encrypt : K → N → A → P → C
  decrypt : K → N → A → C → Option P
  decrypt_eq_some : ∀ {k n a c p}, decrypt k n a c = some p ↔ c = encrypt k n a p
  encrypt_inj : ∀ {k n a p k' n' a' p'}, encrypt k n a p = encrypt k' n' a' p' →
    k = k' ∧ n = n' ∧ a = a' ∧ p = p'

namespace Aead

section
variable {K N A P C : Type*} {aead : Aead K N A P C} {k k' : K} {n : N} {a a' : A} {p p' : P}

/-- **What opens**: the plaintext, under the same key and data. -/
theorem decrypt_encrypt_iff : aead.decrypt k' n a' (aead.encrypt k n a p) = some p' ↔
    k' = k ∧ a' = a ∧ p' = p := by
  rw [aead.decrypt_eq_some]
  constructor
  · intro h
    obtain ⟨rfl, -, rfl, rfl⟩ := aead.encrypt_inj h
    exact ⟨rfl, rfl, rfl⟩
  · rintro ⟨rfl, rfl, rfl⟩
    rfl

@[simp] theorem decrypt_encrypt : aead.decrypt k n a (aead.encrypt k n a p) = some p :=
  decrypt_encrypt_iff.2 ⟨rfl, rfl, rfl⟩

end

/-! ## Transcripts -/

/-- A length in unary, and its end. -/
theorem replicate_append_inj {i j : ℕ} {a b : List UInt8}
    (h : List.replicate i 1 ++ 0 :: a = List.replicate j 1 ++ 0 :: b) : i = j ∧ a = b := by
  induction i generalizing j with
  | zero =>
    cases j with
    | zero => simpa using h
    | succ j => simp [List.replicate_succ] at h
  | succ i ih =>
    cases j with
    | zero => simp [List.replicate_succ] at h
    | succ j =>
      rw [List.replicate_succ, List.replicate_succ, List.cons_append, List.cons_append,
        List.cons_inj_right] at h
      obtain ⟨rfl, rfl⟩ := ih h
      exact ⟨rfl, rfl⟩

section
variable {i j : ℕ}

/-- What stands before the plaintext. -/
def transcriptHead (k : { k : List UInt8 // k.length = i }) (n : { n : List UInt8 // n.length = j })
    (a : List UInt8) : List UInt8 :=
  k.1 ++ (n.1 ++ (List.replicate a.length 1 ++ 0 :: a))

theorem transcriptHead_append_inj {k k' : { k : List UInt8 // k.length = i }}
    {n n' : { n : List UInt8 // n.length = j }} {a a' p p' : List UInt8}
    (h : transcriptHead k n a ++ p = transcriptHead k' n' a' ++ p') :
    k = k' ∧ n = n' ∧ a = a' ∧ p = p' := by
  unfold transcriptHead at h
  simp only [List.append_assoc, List.cons_append] at h
  obtain ⟨hk, h⟩ := List.append_inj h (k.2.trans k'.2.symm)
  obtain ⟨hn, h⟩ := List.append_inj h (n.2.trans n'.2.symm)
  obtain ⟨hlen, h⟩ := replicate_append_inj h
  obtain ⟨rfl, rfl⟩ := List.append_inj h hlen
  exact ⟨Subtype.ext hk, Subtype.ext hn, rfl, rfl⟩

/-- Keys of `i` bytes, nonces of `j`. -/
def transcript (i j : ℕ) : Aead { k : List UInt8 // k.length = i } { n : List UInt8 // n.length = j }
    (List UInt8) (List UInt8) (List UInt8) where
  encrypt k n a p := transcriptHead k n a ++ p
  decrypt k n a c :=
    if transcriptHead k n a <+: c then some (c.drop (transcriptHead k n a).length) else none
  decrypt_eq_some := by
    intro k n a c p
    constructor
    · intro h
      split_ifs at h with hstarts
      obtain ⟨rest, rfl⟩ := hstarts
      rw [List.drop_left, Option.some.injEq] at h
      rw [h]
    · rintro rfl
      rw [if_pos (List.prefix_append ..), List.drop_left]
  encrypt_inj h := transcriptHead_append_inj h

end

end Aead
