/-
  base64url without padding, strict: no other characters, no single character
  left over, and no bits beyond the last byte.

  * `decode_encode`: what was encoded decodes, and `encode_of_decode`: nothing
    else does, since every character that is left over counts;
  * `ofSextets`: the bytes of six bits each, whatever is left over, as a
    forgiving decoder has them;
  * `ofSextets_of_decode`: it finds what the strict one does.
-/
import Mathlib.Data.Nat.Notation
import Mathlib.Tactic.SplitIfs

namespace Base64

/-- The character of six bits. -/
def digit (n : ℕ) : Char :=
  if n < 26 then Char.ofNat (n + 65)
  else if n < 52 then Char.ofNat (n - 26 + 97)
  else if n < 62 then Char.ofNat (n - 52 + 48)
  else if n = 62 then '-'
  else '_'

def value (c : Char) : Option ℕ :=
  if 65 ≤ c.toNat ∧ c.toNat < 91 then some (c.toNat - 65)
  else if 97 ≤ c.toNat ∧ c.toNat < 123 then some (c.toNat - 97 + 26)
  else if 48 ≤ c.toNat ∧ c.toNat < 58 then some (c.toNat - 48 + 52)
  else if c = '-' then some 62
  else if c = '_' then some 63
  else none

def encode : List UInt8 → List Char
  | a :: b :: c :: rest =>
    let n := a.toNat * 65536 + b.toNat * 256 + c.toNat
    digit (n / 262144) :: digit (n / 4096 % 64) :: digit (n / 64 % 64) :: digit (n % 64) :: encode rest
  | [a, b] =>
    let n := a.toNat * 1024 + b.toNat * 4
    [digit (n / 4096), digit (n / 64 % 64), digit (n % 64)]
  | [a] =>
    let n := a.toNat * 16
    [digit (n / 64), digit (n % 64)]
  | [] => []

def decode : List Char → Option (List UInt8)
  | w :: x :: y :: z :: rest => do
    let n := (← value w) * 262144 + (← value x) * 4096 + (← value y) * 64 + (← value z)
    let bytes ← decode rest
    return UInt8.ofNat (n / 65536) :: UInt8.ofNat (n / 256 % 256) :: UInt8.ofNat (n % 256) :: bytes
  | [x, y, z] => do
    let n := (← value x) * 4096 + (← value y) * 64 + (← value z)
    if n % 4 = 0 then return [UInt8.ofNat (n / 1024), UInt8.ofNat (n / 4 % 256)] else none
  | [y, z] => do
    let n := (← value y) * 64 + (← value z)
    if n % 16 = 0 then return [UInt8.ofNat (n / 16)] else none
  | [_] => none
  | [] => some []

theorem value_digit {n : ℕ} (h : n < 64) : value (digit n) = some n := by
  have hall : ∀ i : Fin 64, value (digit i) = some i.val := by decide
  exact hall ⟨n, h⟩

/-- A byte from its number. -/
theorem ofNat_eq {a : UInt8} {n : ℕ} (h : n = a.toNat) : UInt8.ofNat n = a := by
  rw [h, UInt8.ofNat_toNat]

theorem join_sextets (n : ℕ) :
    n / 262144 * 262144 + n / 4096 % 64 * 4096 + n / 64 % 64 * 64 + n % 64 = n := by
  omega

/-- **Round trip.** -/
theorem decode_encode (bytes : List UInt8) : decode (encode bytes) = some bytes := by
  induction bytes using encode.induct with
  | case1 a b c rest ih =>
    have ha := a.toNat_lt
    have hb := b.toNat_lt
    have hc := c.toNat_lt
    unfold encode
    dsimp only
    generalize hn : a.toNat * 65536 + b.toNat * 256 + c.toNat = n
    generalize hw : n / 262144 = w
    generalize hx : n / 4096 % 64 = x
    generalize hy : n / 64 % 64 = y
    generalize hz : n % 64 = z
    have hjoin : w * 262144 + x * 4096 + y * 64 + z = n := by
      subst hw hx hy hz
      exact join_sextets n
    have hfirst : UInt8.ofNat (n / 65536) = a := ofNat_eq (by omega)
    have hsecond : UInt8.ofNat (n / 256 % 256) = b := ofNat_eq (by omega)
    have hthird : UInt8.ofNat (n % 256) = c := ofNat_eq (by omega)
    unfold decode
    rw [value_digit (by omega), value_digit (by omega), value_digit (by omega),
      value_digit (by omega), ih]
    simp only [Option.bind_eq_bind, Option.bind_some, Option.pure_def]
    rw [hjoin, hfirst, hsecond, hthird]
  | case2 a b =>
    have ha := a.toNat_lt
    have hb := b.toNat_lt
    unfold encode
    dsimp only
    generalize hn : a.toNat * 1024 + b.toNat * 4 = n
    generalize hx : n / 4096 = x
    generalize hy : n / 64 % 64 = y
    generalize hz : n % 64 = z
    have hjoin : x * 4096 + y * 64 + z = n := by
      subst hx hy hz
      clear hn
      omega
    have hfirst : UInt8.ofNat (n / 1024) = a := ofNat_eq (by omega)
    have hsecond : UInt8.ofNat (n / 4 % 256) = b := ofNat_eq (by omega)
    unfold decode
    rw [value_digit (by omega), value_digit (by omega), value_digit (by omega)]
    simp only [Option.bind_eq_bind, Option.bind_some, Option.pure_def]
    rw [hjoin, if_pos (by omega), hfirst, hsecond]
  | case3 a =>
    have ha := a.toNat_lt
    unfold encode
    dsimp only
    generalize hn : a.toNat * 16 = n
    generalize hy : n / 64 = y
    generalize hz : n % 64 = z
    have hjoin : y * 64 + z = n := by omega
    have hbyte : UInt8.ofNat (n / 16) = a := ofNat_eq (by omega)
    unfold decode
    rw [value_digit (by omega), value_digit (by omega)]
    simp only [Option.bind_eq_bind, Option.bind_some, Option.pure_def]
    rw [hjoin, if_pos (by omega), hbyte]
  | case4 => rfl

theorem mem_encode {c : Char} {bytes : List UInt8} (h : c ∈ encode bytes) : ∃ n < 64, c = digit n := by
  induction bytes using encode.induct with
  | case1 a b d rest ih =>
    have ha := a.toNat_lt
    have hb := b.toNat_lt
    have hd := d.toNat_lt
    unfold encode at h
    dsimp only at h
    generalize hn : a.toNat * 65536 + b.toNat * 256 + d.toNat = n at h
    simp only [List.mem_cons] at h
    rcases h with rfl | rfl | rfl | rfl | h
    · exact ⟨_, by omega, rfl⟩
    · exact ⟨_, by omega, rfl⟩
    · exact ⟨_, by omega, rfl⟩
    · exact ⟨_, by omega, rfl⟩
    · exact ih h
  | case2 a b =>
    have ha := a.toNat_lt
    have hb := b.toNat_lt
    unfold encode at h
    dsimp only at h
    generalize hn : a.toNat * 1024 + b.toNat * 4 = n at h
    simp only [List.mem_cons, List.not_mem_nil, or_false] at h
    rcases h with rfl | rfl | rfl
    · exact ⟨_, by omega, rfl⟩
    · exact ⟨_, by omega, rfl⟩
    · exact ⟨_, by omega, rfl⟩
  | case3 a =>
    have ha := a.toNat_lt
    unfold encode at h
    dsimp only at h
    generalize hn : a.toNat * 16 = n at h
    simp only [List.mem_cons, List.not_mem_nil, or_false] at h
    rcases h with rfl | rfl
    · exact ⟨_, by omega, rfl⟩
    · exact ⟨_, by omega, rfl⟩
  | case4 => cases h

theorem encode_ne_nil {bytes : List UInt8} (h : bytes ≠ []) : encode bytes ≠ [] := by
  intro hnil
  have hround := decode_encode bytes
  rw [hnil] at hround
  exact h (Option.some.inj hround).symm

/-! ## Nothing else decodes -/

theorem digit_of_value {c : Char} {n : ℕ} (h : value c = some n) : digit n = c ∧ n < 64 := by
  have hchar : ∀ m, m = c.toNat → Char.ofNat m = c := fun m hm => by rw [hm, Char.ofNat_toNat]
  unfold value at h
  unfold digit
  split_ifs at h with hupper hlower hdigit hminus hscore
  · obtain rfl := Option.some.inj h
    refine ⟨?_, by omega⟩
    rw [if_pos (by omega)]
    exact hchar _ (by omega)
  · obtain rfl := Option.some.inj h
    refine ⟨?_, by omega⟩
    rw [if_neg (by omega), if_pos (by omega)]
    exact hchar _ (by omega)
  · obtain rfl := Option.some.inj h
    refine ⟨?_, by omega⟩
    rw [if_neg (by omega), if_neg (by omega), if_pos (by omega)]
    exact hchar _ (by omega)
  · obtain rfl := Option.some.inj h
    exact ⟨hminus.symm, by omega⟩
  · obtain rfl := Option.some.inj h
    exact ⟨hscore.symm, by omega⟩

/-- The number of a byte made of a small number. -/
theorem toNat_ofNat {n : ℕ} (h : n < 256) : (UInt8.ofNat n).toNat = n := by
  rw [UInt8.toNat_ofNat']
  exact Nat.mod_eq_of_lt h

theorem join_bytes (n : ℕ) : n / 65536 * 65536 + n / 256 % 256 * 256 + n % 256 = n := by
  omega

/-- **Only an encoding decodes.** -/
theorem encode_of_decode {chars : List Char} {bytes : List UInt8} (h : decode chars = some bytes) :
    encode bytes = chars := by
  induction chars using decode.induct generalizing bytes with
  | case1 w x y z rest ih =>
    simp only [decode, Option.bind_eq_bind, Option.bind_eq_some_iff, Option.pure_def,
      Option.some_inj] at h
    obtain ⟨w', hw, x', hx, y', hy, z', hz, more, hmore, rfl⟩ := h
    obtain ⟨rfl, hw'⟩ := digit_of_value hw
    obtain ⟨rfl, hx'⟩ := digit_of_value hx
    obtain ⟨rfl, hy'⟩ := digit_of_value hy
    obtain ⟨rfl, hz'⟩ := digit_of_value hz
    generalize hn : w' * 262144 + x' * 4096 + y' * 64 + z' = n
    generalize ha : n / 65536 = a
    generalize hb : n / 256 % 256 = b
    generalize hc : n % 256 = c
    have hjoin : a * 65536 + b * 256 + c = n := by
      subst ha hb hc
      exact join_bytes n
    unfold encode
    dsimp only
    rw [toNat_ofNat (show a < 256 by omega), toNat_ofNat (show b < 256 by omega),
      toNat_ofNat (show c < 256 by omega), hjoin, ih hmore, show n / 262144 = w' by omega,
      show n / 4096 % 64 = x' by omega, show n / 64 % 64 = y' by omega, show n % 64 = z' by omega]
  | case2 x y z =>
    simp only [decode, Option.bind_eq_bind, Option.bind_eq_some_iff, Option.pure_def] at h
    obtain ⟨x', hx, y', hy, z', hz, h⟩ := h
    obtain ⟨rfl, hx'⟩ := digit_of_value hx
    obtain ⟨rfl, hy'⟩ := digit_of_value hy
    obtain ⟨rfl, hz'⟩ := digit_of_value hz
    split_ifs at h with hrest
    obtain rfl := Option.some.inj h
    generalize hn : x' * 4096 + y' * 64 + z' = n at hrest
    generalize ha : n / 1024 = a
    generalize hb : n / 4 % 256 = b
    have hjoin : a * 1024 + b * 4 = n := by
      subst ha hb
      clear hn
      omega
    unfold encode
    dsimp only
    rw [toNat_ofNat (show a < 256 by omega), toNat_ofNat (show b < 256 by omega), hjoin,
      show n / 4096 = x' by omega, show n / 64 % 64 = y' by omega, show n % 64 = z' by omega]
  | case3 y z =>
    simp only [decode, Option.bind_eq_bind, Option.bind_eq_some_iff, Option.pure_def] at h
    obtain ⟨y', hy, z', hz, h⟩ := h
    obtain ⟨rfl, hy'⟩ := digit_of_value hy
    obtain ⟨rfl, hz'⟩ := digit_of_value hz
    split_ifs at h with hrest
    obtain rfl := Option.some.inj h
    generalize hn : y' * 64 + z' = n at hrest
    generalize ha : n / 16 = a
    have hjoin : a * 16 = n := by omega
    unfold encode
    dsimp only
    rw [toNat_ofNat (show a < 256 by omega), hjoin, show n / 64 = y' by omega,
      show n % 64 = z' by omega]
  | case4 => cases h
  | case5 =>
    obtain rfl := Option.some.inj h
    rfl

/-- No dot is in an encoding. -/
theorem dot_not_mem_encode (bytes : List UInt8) : '.' ∉ encode bytes := by
  intro h
  obtain ⟨n, hn, heq⟩ := mem_encode h
  have hvalue := value_digit hn
  rw [← heq] at hvalue
  cases hvalue

/-! ## Six bits each -/

def ofSextets : List ℕ → List UInt8
  | w :: x :: y :: z :: rest =>
    let n := w * 262144 + x * 4096 + y * 64 + z
    UInt8.ofNat (n / 65536) :: UInt8.ofNat (n / 256 % 256) :: UInt8.ofNat (n % 256) :: ofSextets rest
  | [x, y, z] =>
    let n := x * 4096 + y * 64 + z
    [UInt8.ofNat (n / 1024), UInt8.ofNat (n / 4 % 256)]
  | [y, z] => [UInt8.ofNat ((y * 64 + z) / 16)]
  | _ => []

/-- The digits of an encoding. -/
theorem exists_sextets (bytes : List UInt8) :
    ∃ l : List ℕ, (∀ n ∈ l, n < 64) ∧ encode bytes = l.map digit := by
  have hall : ∀ c ∈ encode bytes, ∃ n < 64, c = digit n := fun _ hc => mem_encode hc
  generalize encode bytes = chars at hall
  induction chars with
  | nil => exact ⟨[], nofun, rfl⟩
  | cons c chars ih =>
    obtain ⟨n, hn, rfl⟩ := hall c (.head _)
    obtain ⟨l, hl, rfl⟩ := ih fun c' hc' => hall c' (.tail _ hc')
    refine ⟨n :: l, fun k hk => ?_, rfl⟩
    rcases List.mem_cons.1 hk with rfl | hk
    · exact hn
    · exact hl k hk

/-- **The forgiving decoder agrees with the strict one.** -/
theorem ofSextets_of_decode {l : List ℕ} (hl : ∀ n ∈ l, n < 64) {bytes : List UInt8}
    (h : decode (l.map digit) = some bytes) : ofSextets l = bytes ∧ l.length % 4 ≠ 1 := by
  induction l using ofSextets.induct generalizing bytes with
  | case1 w x y z rest ih =>
    simp only [List.mem_cons, forall_eq_or_imp] at hl
    obtain ⟨hw, hx, hy, hz, hrest⟩ := hl
    simp only [List.map_cons, decode, value_digit hw, value_digit hx, value_digit hy, value_digit hz,
      Option.bind_eq_bind, Option.bind_some, Option.bind_eq_some_iff, Option.pure_def, Option.some_inj] at h
    obtain ⟨more, hmore, rfl⟩ := h
    obtain ⟨hbytes, hlen⟩ := ih hrest hmore
    rw [ofSextets, hbytes]
    refine ⟨rfl, ?_⟩
    simp only [List.length_cons]
    omega
  | case2 x y z =>
    simp only [List.mem_cons, List.not_mem_nil, or_false, forall_eq_or_imp, forall_eq] at hl
    obtain ⟨hx, hy, hz⟩ := hl
    simp only [List.map_cons, List.map_nil, decode, value_digit hx, value_digit hy, value_digit hz,
      Option.bind_eq_bind, Option.bind_some, Option.pure_def] at h
    split_ifs at h
    exact ⟨Option.some.inj h, by simp⟩
  | case3 y z =>
    simp only [List.mem_cons, List.not_mem_nil, or_false, forall_eq_or_imp, forall_eq] at hl
    obtain ⟨hy, hz⟩ := hl
    simp only [List.map_cons, List.map_nil, decode, value_digit hy, value_digit hz,
      Option.bind_eq_bind, Option.bind_some, Option.pure_def] at h
    split_ifs at h
    exact ⟨Option.some.inj h, by simp⟩
  | case4 l h1 h2 h3 =>
    match l with
    | [] => exact ⟨Option.some.inj h, by decide⟩
    | [n] => cases h
    | [y, z] => exact absurd rfl (h3 y z)
    | [x, y, z] => exact absurd rfl (h2 x y z)
    | w :: x :: y :: z :: rest => exact absurd rfl (h1 w x y z rest)

end Base64
