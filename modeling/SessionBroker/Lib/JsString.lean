/-
  The strings of JavaScript: lists of UTF-16 code units.  And the values that
  are made of them.

  * `utf16`: the code units of a text;
  * `trim`: without the white space at both ends;
  * `atob`: forgiving base64, to a string of bytes;
  * `atob_padded`: base64url of bytes, with the alphabet exchanged and padded,
    comes back as these bytes;
  * `Value`: what a text of JSON stands for.
-/
import SessionBroker.Lib.Base64
import SessionBroker.Lib.Number
import SessionBroker.Lib.Trim

namespace Js

abbrev Units := List UInt16

/-! ## Code units -/

/-- One code unit, or a surrogate pair. -/
def utf16Char (c : Char) : Units :=
  if c.toNat < 0x10000 then [.ofNat c.toNat]
  else [.ofNat (0xD800 + (c.toNat - 0x10000) / 0x400), .ofNat (0xDC00 + (c.toNat - 0x10000) % 0x400)]

/-- The string of a text. -/
def utf16 (s : String) : Units := s.toList.flatMap utf16Char

/-- `White_Space` and `LineTerminator`. -/
def isSpace (u : UInt16) : Bool :=
  u.toNat ∈ [9, 10, 11, 12, 13, 32, 0xA0, 0x1680, 0x2028, 0x2029, 0x202F, 0x205F, 0x3000, 0xFEFF] ||
    (0x2000 ≤ u.toNat && u.toNat ≤ 0x200A)

/-- `trim()`. -/
def trim (s : Units) : Units := Trim.trim isSpace s

/-! ## Base64 -/

/-- The six bits of a character of base64. -/
def sextet (u : UInt16) : Option ℕ :=
  if 65 ≤ u.toNat ∧ u.toNat < 91 then some (u.toNat - 65)
  else if 97 ≤ u.toNat ∧ u.toNat < 123 then some (u.toNat - 97 + 26)
  else if 48 ≤ u.toNat ∧ u.toNat < 58 then some (u.toNat - 48 + 52)
  else if u = 43 then some 62
  else if u = 47 then some 63
  else none

/-- One or two equals signs at the end of whole quadruples. -/
def stripPadding (s : Units) : Units :=
  if s.length % 4 ≠ 0 then s
  else if [61, 61] <:+ s then s.take (s.length - 2)
  else if [61] <:+ s then s.take (s.length - 1)
  else s

def isAsciiSpace (u : UInt16) : Bool := u.toNat ∈ [9, 10, 12, 13, 32]

/-- `atob`; `none` is an `InvalidCharacterError`. -/
def atob (s : Units) : Option (List UInt8) :=
  let s := stripPadding (s.filter fun u => !isAsciiSpace u)
  if s.length % 4 = 1 then none
  else (s.mapM sextet).map Base64.ofSextets

/-- The character of base64 for one of base64url. -/
def fromUrl (u : UInt16) : UInt16 := if u = 45 then 43 else if u = 95 then 47 else u

/-- Equals signs up to whole quadruples. -/
def pad (s : Units) : Units := s ++ List.replicate ((4 - s.length % 4) % 4) 61

/-- The code unit of a digit. -/
def digitUnit (n : ℕ) : UInt16 := .ofNat (Base64.digit n).toNat

theorem digitUnit_eq {n : ℕ} (h : n < 64) : utf16Char (Base64.digit n) = [digitUnit n] ∧
    isSpace (digitUnit n) = false ∧ digitUnit n ≠ 59 ∧ sextet (fromUrl (digitUnit n)) = some n ∧
    isAsciiSpace (fromUrl (digitUnit n)) = false ∧ fromUrl (digitUnit n) ≠ 61 := by
  have hall : ∀ i : Fin 64, utf16Char (Base64.digit i) = [digitUnit i] ∧
      isSpace (digitUnit i) = false ∧ digitUnit i ≠ 59 ∧ sextet (fromUrl (digitUnit i)) = some i.val ∧
      isAsciiSpace (fromUrl (digitUnit i)) = false ∧ fromUrl (digitUnit i) ≠ 61 := by
    decide +kernel
  exact hall ⟨n, h⟩

theorem stripPadding_pad {s : Units} (heq : 61 ∉ s) (hlen : s.length % 4 ≠ 1) :
    stripPadding (pad s) = s := by
  have hmod : (pad s).length % 4 = 0 := by
    rw [pad, List.length_append, List.length_replicate]
    omega
  -- an equals sign before the padding would be one of the string
  have hsuffix : ∀ k l, k ≤ l → ¬List.replicate (l + 1) 61 <:+ s ++ List.replicate k 61 := by
    intro k l hle h
    have hlast : [61] ++ List.replicate k 61 <:+ s ++ List.replicate k 61 := by
      refine List.IsSuffix.trans ⟨List.replicate (l - k) 61, ?_⟩ h
      rw [List.singleton_append, ← List.replicate_succ, List.replicate_append_replicate]
      congr 1
      omega
    exact heq ((List.suffix_append_self_iff.1 hlast).subset (.head _))
  have hcount : (4 - s.length % 4) % 4 = 0 ∨ (4 - s.length % 4) % 4 = 1 ∨ (4 - s.length % 4) % 4 = 2 := by
    omega
  rw [stripPadding, if_neg (not_not.2 hmod), pad]
  rcases hcount with h | h | h <;> rw [h]
  · have htwo : ¬[61, 61] <:+ s ++ List.replicate 0 61 := hsuffix 0 1 (by decide)
    have hone : ¬[61] <:+ s ++ List.replicate 0 61 := hsuffix 0 0 le_rfl
    rw [if_neg htwo, if_neg hone]
    simp
  · have htwo : ¬[61, 61] <:+ s ++ List.replicate 1 61 := hsuffix 1 1 le_rfl
    have hone : [61] <:+ s ++ List.replicate 1 61 := List.suffix_append ..
    rw [if_neg htwo, if_pos hone]
    simp
  · have htwo : [61, 61] <:+ s ++ List.replicate 2 61 := List.suffix_append ..
    rw [if_pos htwo]
    simp

theorem mapM_sextet {l : List ℕ} (h : ∀ n ∈ l, n < 64) :
    (l.map fun n => fromUrl (digitUnit n)).mapM sextet = some l := by
  induction l with
  | nil => rfl
  | cons n l ih =>
    obtain ⟨-, -, -, hn, -⟩ := digitUnit_eq (h n (.head _))
    rw [List.map_cons, List.mapM_cons, hn, ih fun k hk => h k (.tail _ hk)]
    rfl

/-- The code units of base64url. -/
theorem exists_digits (bytes : List UInt8) : ∃ l : List ℕ, (∀ n ∈ l, n < 64) ∧ l.length % 4 ≠ 1 ∧
    Base64.ofSextets l = bytes ∧ (Base64.encode bytes).flatMap utf16Char = l.map digitUnit := by
  obtain ⟨l, hl, hdigits⟩ := Base64.exists_sextets bytes
  have hround := Base64.decode_encode bytes
  rw [hdigits] at hround
  obtain ⟨hbytes, hlen⟩ := Base64.ofSextets_of_decode hl hround
  refine ⟨l, hl, hlen, hbytes, ?_⟩
  rw [hdigits, List.flatMap_map, List.map_eq_flatMap]
  exact List.flatMap_congr fun n hn => (digitUnit_eq (hl n hn)).1

/-- **Round trip.** -/
theorem atob_padded (bytes : List UInt8) :
    atob (pad (((Base64.encode bytes).flatMap utf16Char).map fromUrl)) = some bytes := by
  obtain ⟨l, hl, hlen, hbytes, hdigits⟩ := exists_digits bytes
  rw [hdigits, List.map_map]
  have hunits : ∀ u ∈ l.map (fromUrl ∘ digitUnit), isAsciiSpace u = false ∧ u ≠ 61 := by
    intro u hu
    obtain ⟨n, hn, rfl⟩ := List.mem_map.1 hu
    exact (digitUnit_eq (hl n hn)).2.2.2.2
  have hfilter : (pad (l.map (fromUrl ∘ digitUnit))).filter (fun u => !isAsciiSpace u) =
      pad (l.map (fromUrl ∘ digitUnit)) := by
    refine List.filter_eq_self.2 fun u hu => ?_
    rcases List.mem_append.1 hu with hu | hu
    · rw [(hunits u hu).1]
      rfl
    · rw [List.eq_of_mem_replicate hu]
      rfl
  have hstrip : stripPadding (pad (l.map (fromUrl ∘ digitUnit))) = l.map (fromUrl ∘ digitUnit) := by
    refine stripPadding_pad (fun hmem => (hunits _ hmem).2 rfl) ?_
    rwa [List.length_map]
  unfold atob
  dsimp only
  rw [hfilter, hstrip, if_neg (by rwa [List.length_map])]
  rw [show l.map (fromUrl ∘ digitUnit) = l.map fun n => fromUrl (digitUnit n) from rfl, mapM_sextet hl,
    Option.map_some, hbytes]

/-! ## Values -/

/-- A value that JSON can express.  An object has each of its keys once. -/
inductive Value where
  | null
  | bool (b : Bool)
  | number (x : Number)
  | string (s : Units)
  | array (l : List Value)
  | object (l : List (Units × Value))

/-- `value[key]`, for a key that no prototype has. -/
def Value.get (value : Value) (key : String) : Option Value :=
  match value with
  | object l => l.lookup (utf16 key)
  | _ => none

end Js
