/-
  What the handlers use of the string library: splitting, trimming, parsing and
  UTF-8.
-/
import SessionBroker.Db
import SessionBroker.Lib.Url
import Mathlib.Data.List.DropRight

namespace SessionBroker

/-- `str::split_once` at a character. -/
def splitOnce (c : Char) (s : String) : Option (String × String) :=
  if c ∈ s.toList then
    some (.ofList (s.toList.takeWhile (· ≠ c)), .ofList (s.toList.dropWhile (· ≠ c)).tail)
  else none

/-- `str::parse::<u64>`. -/
def parseU64 (raw : String) : Option ℕ :=
  let digits := if raw.toList.head? = some '+' then raw.toList.tail else raw.toList
  let value := digits.foldl (fun n c => 10 * n + (c.toNat - '0'.toNat)) 0
  if digits ≠ [] ∧ digits.all Char.isDigit ∧ value < 2 ^ 64 then some value else none

/-- `HeaderValue::to_str`. -/
def headerText (value : Bytes) : Option String :=
  if value.all fun b => (32 ≤ b && b < 127) || b == 9 then
    some (.ofList (value.map fun b => Char.ofNat b.toNat))
  else none

/-- `char::is_whitespace`. -/
def isWhiteSpace (c : Char) : Bool :=
  let n := c.toNat
  (9 ≤ n && n ≤ 13) || n == 0x20 || n == 0x85 || n == 0xA0 || n == 0x1680 ||
    (0x2000 ≤ n && n ≤ 0x200A) || n == 0x2028 || n == 0x2029 || n == 0x202F || n == 0x205F ||
    n == 0x3000

/-- `char::is_control`. -/
def isControl (c : Char) : Bool := c.toNat < 0x20 || (0x7F ≤ c.toNat && c.toNat ≤ 0x9F)

/-- `str::trim`. -/
def trim (s : String) : String :=
  .ofList ((s.toList.dropWhile isWhiteSpace).rdropWhile isWhiteSpace)

/-- `str::trim_start`. -/
def trimStart (s : String) : String := .ofList (s.toList.dropWhile isWhiteSpace)

/-- `str::trim_end`. -/
def trimEnd (s : String) : String := .ofList (s.toList.rdropWhile isWhiteSpace)

/-- `str::split` at a character. -/
def split (c : Char) (s : String) : List String := (s.toList.splitOn c).map .ofList

/-- `str::strip_prefix`. -/
def stripPrefix (start s : String) : Option String :=
  if start.toList <+: s.toList then some (.ofList (s.toList.drop start.toList.length)) else none

/-- `String::from_utf8`. -/
def fromUtf8 (bytes : Bytes) : Option String := String.fromUTF8? ⟨bytes.toArray⟩

/-- A string that contains the separator splits at its first occurrence. -/
theorem splitOnce_eq_some {c : Char} {s a b : String} :
    splitOnce c s = some (a, b) ↔ s.toList = a.toList ++ c :: b.toList ∧ c ∉ a.toList := by
  unfold splitOnce
  constructor
  · intro h
    split_ifs at h with hc
    · simp only [Option.some.injEq, Prod.mk.injEq] at h
      obtain ⟨rfl, rfl⟩ := h
      have hdrop : s.toList.dropWhile (· ≠ c) ≠ [] := by
        intro hnil
        simpa using List.dropWhile_eq_nil_iff.1 hnil c hc
      have hhead : (s.toList.dropWhile (· ≠ c)).head hdrop = c := by
        simpa using List.head_dropWhile_not (· ≠ c) hdrop
      constructor
      · rw [String.toList_ofList, String.toList_ofList]
        conv_lhs => rw [← List.takeWhile_append_dropWhile (p := (· ≠ c)) (l := s.toList)]
        rw [← List.cons_head_tail hdrop, hhead]
        simp
      · rw [String.toList_ofList]
        intro hmem
        simpa using List.mem_takeWhile_imp hmem
  · rintro ⟨hs, hc⟩
    have hall : ∀ x ∈ a.toList, decide (x ≠ c) = true := by
      intro x hx
      exact decide_eq_true fun h => hc (h ▸ hx)
    have hstop : ∀ x, (c :: b.toList).head? = some x → decide (x ≠ c) = false := by
      intro x hx
      cases hx
      simp
    rw [if_pos (by rw [hs]; simp), hs, Trim.takeWhile_stop hall hstop, Trim.dropWhile_stop hall hstop]
    simp

theorem stripPrefix_eq_some {start s rest : String} :
    stripPrefix start s = some rest ↔ s.toList = start.toList ++ rest.toList := by
  unfold stripPrefix
  constructor
  · intro h
    split_ifs at h with hp
    obtain ⟨l, hl⟩ := hp
    simp only [Option.some.injEq] at h
    rw [← h, String.toList_ofList, ← hl, List.drop_left]
  · intro h
    rw [if_pos ⟨_, h.symm⟩, h, List.drop_left, String.ofList_toList]

/-- Trimming leaves what stands at both sides of a character that is no blank. -/
theorem trim_around {c : Char} (hc : isWhiteSpace c = false) {s a b : String}
    (h : s.toList = a.toList ++ c :: b.toList) :
    (trim s).toList = (trimStart a).toList ++ c :: (trimEnd b).toList := by
  rw [trim, trimStart, trimEnd, h, Trim.dropWhile_append_cons hc, Trim.rdropWhile_append_cons hc]
  simp

theorem mem_trim {c : Char} {s : String} (h : c ∈ (trim s).toList) : c ∈ s.toList := by
  rw [trim, String.toList_ofList] at h
  exact (List.dropWhile_sublist _).mem ((List.rdropWhile_prefix _ _).sublist.mem h)

/-- Without blanks at the ends there is nothing to trim. -/
theorem trim_eq_self {s : String} (hstart : ∀ c, s.toList.head? = some c → isWhiteSpace c = false)
    (hend : ∀ c, s.toList.getLast? = some c → isWhiteSpace c = false) : trim s = s := by
  have hdrop : s.toList.dropWhile isWhiteSpace = s.toList := by
    cases hs : s.toList with
    | nil => rfl
    | cons c rest => exact List.dropWhile_cons_of_neg (by simp [hstart c (by simp [hs])])
  have hrdrop : s.toList.rdropWhile isWhiteSpace = s.toList := by
    rw [List.rdropWhile_eq_self_iff]
    intro hne
    simp [hend _ (List.getLast?_eq_getLast_of_ne_nil hne)]
  rw [trim, hdrop, hrdrop, String.ofList_toList]

/-! ## Numbers -/

theorem isDigit_toString {n : ℕ} {c : Char} (h : c ∈ (toString n).toList) : c.isDigit = true := by
  rw [Nat.toString_eq_repr, Nat.toList_repr] at h
  exact Nat.isDigit_of_mem_toDigits (by omega) (by omega) h

theorem toString_ne_nil (n : ℕ) : (toString n).toList ≠ [] := by
  rw [Nat.toString_eq_repr, Nat.toList_repr]
  exact Nat.toDigits_ne_nil

/-- A number is read as it was written. -/
theorem parseU64_toString {n : ℕ} (h : n < 2 ^ 64) : parseU64 (toString n) = some n := by
  have hplus : (toString n).toList.head? ≠ some '+' := by
    intro hhead
    exact absurd (isDigit_toString (List.mem_of_head? hhead)) (by decide)
  have hdigits : (toString n).toList.all Char.isDigit = true := by
    rw [List.all_eq_true]
    intro c
    exact isDigit_toString
  have hvalue : (toString n).toList.foldl (fun n c => 10 * n + (c.toNat - '0'.toNat)) 0 = n := by
    rw [Nat.toString_eq_repr, Nat.toList_repr]
    exact Nat.ofDigitChars_ten_toDigits
  unfold parseU64
  rw [if_neg hplus]
  dsimp only
  rw [hvalue, if_pos ⟨toString_ne_nil n, hdigits, h⟩]

theorem trim_eq (s : String) : trim s = trimEnd (trimStart s) := by
  simp [trim, trimEnd, trimStart]

end SessionBroker
