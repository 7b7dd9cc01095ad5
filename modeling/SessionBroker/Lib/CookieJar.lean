/-
  The cookies that a browser keeps for one host.

  * `parse`: what a line of an answer says, a name, a value and attributes;
  * `store`: what the browser makes of it, which depends on the connection and on
    the clock;
  * `header`: what it sends back, and `shown` what it shows to scripts;
  * `named_store`: of the cookies with one name a line touches its own.

  An `Expires` attribute is left out, and so is the check of a `Domain` against
  the host.
-/
import SessionBroker.Lib.Trim
import Mathlib.Data.List.Sort

namespace CookieJar

abbrev Text := List Char

/-! ## Lines -/

def isBlank (c : Char) : Bool := c = ' ' || c = Char.ofNat 9

/-- What is around the first equals sign. -/
def halves (part : Text) : Option (Text × Text) :=
  if '=' ∈ part then
    some (Trim.trim isBlank (part.takeWhile (· ≠ '=')), Trim.trim isBlank (part.dropWhile (· ≠ '=')).tail)
  else none

/-- An attribute, its name in lower case. -/
def attributeOf (part : Text) : String × Text :=
  match halves part with
  | some (name, value) => (.ofList (name.map Char.toLower), value)
  | none => (.ofList ((Trim.trim isBlank part).map Char.toLower), [])

structure Line where
  name : Text
  value : Text
  attributes : List (String × Text)
deriving DecidableEq, Repr

/-- A line that sets no name sets nothing. -/
def parse (line : Text) : Option Line :=
  (halves (line.takeWhile (· ≠ ';'))).bind fun h =>
    if h.1 = [] then none else some ⟨h.1, h.2, (line.splitOn ';').tail.map attributeOf⟩

def number (digits : Text) : ℕ := Nat.ofDigitChars 10 digits 0

/-- An age in seconds. -/
def age : Text → Option ℤ
  | [] => none
  | c :: digits =>
    if c = '-' then
      if digits ≠ [] ∧ digits.all Char.isDigit then some (-(number digits : ℤ)) else none
    else if (c :: digits).all Char.isDigit then some (number (c :: digits)) else none

namespace Line

variable (l : Line)

def has (name : String) : Bool := l.attributes.any (·.1 = name)

/-- The value of the last attribute of a name. -/
def last (name : String) : Option Text :=
  (l.attributes.filterMap fun a => if a.1 = name then some a.2 else none).getLast?

/-- The last age that is one. -/
def maxAge : Option ℤ :=
  (l.attributes.filterMap fun a => if a.1 = "max-age" then age a.2 else none).getLast?

end Line

/-! ## Cookies -/

structure Cookie where
  name : Text
  value : Text
  domain : Option Text
  path : Text
  /-- `none`: when the browser closes. -/
  expires : Option ℤ
  secure : Bool
  httpOnly : Bool
deriving DecidableEq, Repr

/-- Where and when a line is received. -/
structure Receipt where
  https : Bool
  now : ℤ
  /-- No cookie is kept for longer. -/
  longest : ℕ
  /-- For a line that names no path. -/
  path : Text

def Line.cookie (l : Line) (r : Receipt) : Cookie where
  name := l.name
  value := l.value
  domain := (l.last "domain").filter (· ≠ [])
  path := ((l.last "path").filter fun path => path.head? = some '/').getD r.path
  expires := l.maxAge.map fun seconds => r.now + min seconds (r.longest : ℤ)
  secure := l.has "secure"
  httpOnly := l.has "httponly"

namespace Cookie

variable (c : Cookie)

/-- A name with this prefix, whatever its case. -/
def Prefixed (start : Text) : Prop := start <+: c.name.map Char.toLower

instance (start : Text) : Decidable (c.Prefixed start) := inferInstanceAs (Decidable (_ <+: _))

/-- What a browser takes from this connection. -/
def Accepted (https : Bool) : Prop :=
  (c.secure = true → https = true) ∧
    (c.Prefixed "__secure-".toList → c.secure = true) ∧
    (c.Prefixed "__host-".toList → c.secure = true ∧ c.domain = none ∧ c.path = ['/'])

instance (https : Bool) : Decidable (c.Accepted https) := inferInstanceAs (Decidable (_ ∧ _))

def live (now : ℤ) : Bool := c.expires.all (now < ·)

/-- One cookie takes the place of the other. -/
def Replaces (d : Cookie) : Prop := c.name = d.name ∧ c.domain = d.domain ∧ c.path = d.path

instance (d : Cookie) : Decidable (c.Replaces d) := inferInstanceAs (Decidable (_ ∧ _))

def pair : Text := c.name ++ '=' :: c.value

end Cookie

/-- What an answer's line makes of the cookies. -/
def store (r : Receipt) (jar : List Cookie) (line : Text) : List Cookie :=
  match parse line with
  | none => jar
  | some l =>
    let c := l.cookie r
    if c.Accepted r.https then
      if c.live r.now = false then jar.filter fun d => ¬ c.Replaces d
      else if jar.any fun d => c.Replaces d then jar.map fun d => if c.Replaces d then c else d
      else jar ++ [c]
    else jar

def storeAll (r : Receipt) (jar : List Cookie) (lines : List Text) : List Cookie :=
  lines.foldl (store r) jar

/-- A request's path is at or below a cookie's. -/
def pathMatches (request cookie : Text) : Bool :=
  request = cookie ||
    cookie.isPrefixOf request && (cookie.getLast? = some '/' || request[cookie.length]? = some '/')

/-- The cookies of a request, those of longer paths first. -/
def sent (https : Bool) (now : ℤ) (path : Text) (jar : List Cookie) : List Cookie :=
  (jar.filter fun c => c.live now && (!c.secure || https) && pathMatches path c.path).insertionSort
    fun c d => d.path.length ≤ c.path.length

/-- The value of the request's header. -/
def header (cookies : List Cookie) : Text := [';', ' '].intercalate (cookies.map Cookie.pair)

/-- What scripts see of the cookies. -/
def shown (cookies : List Cookie) : List Cookie := cookies.filter fun c => !c.httpOnly

/-! ## A line that was written -/

/-- A text without blanks at its ends, and without the separators. -/
structure Plain (text : Text) : Prop where
  trimmed : Trim.Trimmed isBlank text
  semicolon : ';' ∉ text

/-- Blanks may stand in front. -/
theorem halves_eq (lead : Text) {name value : Text} (hlead : ∀ c ∈ lead, isBlank c = true) (hname : Plain name)
    (hequals : '=' ∉ name) (hvalue : Plain value) :
    halves (lead ++ name ++ '=' :: value) = some (name, value) := by
  have hstop : ∀ c ∈ lead ++ name, decide (c ≠ '=') = true := by
    intro c hc
    refine decide_eq_true ?_
    rintro rfl
    rcases List.mem_append.1 hc with hc | hc
    · exact absurd (hlead _ hc) (by decide)
    · exact hequals hc
  have hhead : ∀ c, ('=' :: value).head? = some c → decide (c ≠ '=') = false := by
    rintro c hc
    cases hc
    rfl
  have hkey : Trim.trim isBlank (lead ++ name) = name := by
    simpa using Trim.trim_between (b := []) hlead hname.trimmed nofun
  have hrest : Trim.trim isBlank value = value := by
    simpa using Trim.trim_between (a := []) (b := []) nofun hvalue.trimmed nofun
  rw [halves, if_pos (by simp), Trim.takeWhile_stop hstop hhead, Trim.dropWhile_stop hstop hhead,
    List.tail_cons, hkey, hrest]

theorem splitOn_parts {α : Type*} [BEq α] [LawfulBEq α] {sep : α} {first : List α} {parts : List (List α)}
    (hfirst : sep ∉ first) (h : ∀ p ∈ parts, sep ∉ p) :
    (first ++ parts.flatMap (sep :: ·)).splitOn sep = first :: parts := by
  have hjoin : first ++ parts.flatMap (sep :: ·) = [sep].intercalate (first :: parts) := by
    induction parts generalizing first with
    | nil => simp [List.intercalate]
    | cons p parts ih =>
      rw [List.flatMap_cons, List.intercalate_cons_cons, List.cons_append, ih (h p (by simp))
        fun q hq => h q (by simp [hq])]
      simp
  rw [hjoin]
  refine List.splitOn_intercalate sep ?_ (by simp)
  intro p hp
  rcases List.mem_cons.1 hp with rfl | hp
  · exact hfirst
  · exact h p hp

/-- A pair and attributes are read as they were written. -/
theorem parse_line {name value : Text} {parts : List Text} (hname : Plain name) (hequals : '=' ∉ name)
    (hne : name ≠ []) (hvalue : Plain value) (hparts : ∀ p ∈ parts, ';' ∉ p) :
    parse (name ++ '=' :: value ++ parts.flatMap (';' :: ·)) = some ⟨name, value, parts.map attributeOf⟩ := by
  have hfirst : ';' ∉ name ++ '=' :: value := by
    simpa using ⟨hname.semicolon, hvalue.semicolon⟩
  have hpair : (name ++ '=' :: value ++ parts.flatMap (';' :: ·)).takeWhile (· ≠ ';') = name ++ '=' :: value := by
    refine Trim.takeWhile_stop (fun c hc => decide_eq_true fun h => hfirst (h ▸ hc)) fun c hc => ?_
    cases parts with
    | nil => cases hc
    | cons p parts =>
      obtain rfl := Option.some.inj hc
      simp
  have hhalves := halves_eq [] nofun hname hequals hvalue
  rw [List.nil_append] at hhalves
  rw [parse, hpair, splitOn_parts hfirst hparts, hhalves, Option.bind_some, if_neg hne, List.tail_cons]

/-- What a line says has nothing in it that separates. -/
theorem plain_of_parse {line : Text} {l : Line} (h : parse line = some l) :
    Plain l.name ∧ '=' ∉ l.name ∧ Plain l.value ∧ ∀ c ∈ l.name ++ l.value, c ∈ line := by
  obtain ⟨halved, hhalves, hrest⟩ := Option.bind_eq_some_iff.1 h
  split_ifs at hrest with hempty
  obtain rfl := Option.some.inj hrest
  unfold halves at hhalves
  split_ifs at hhalves with hequals
  obtain rfl := Option.some.inj hhalves
  have hname : ∀ c ∈ Trim.trim isBlank ((line.takeWhile (· ≠ ';')).takeWhile (· ≠ '=')),
      c ∈ (line.takeWhile (· ≠ ';')).takeWhile (· ≠ '=') := fun c hc => Trim.mem_of_mem_trim hc
  have hvalue : ∀ c ∈ Trim.trim isBlank ((line.takeWhile (· ≠ ';')).dropWhile (· ≠ '=')).tail,
      c ∈ line.takeWhile (· ≠ ';') := fun c hc =>
    (List.dropWhile_sublist _).mem (List.mem_of_mem_tail (Trim.mem_of_mem_trim hc))
  have hpair : ∀ c ∈ line.takeWhile (· ≠ ';'), c ≠ ';' ∧ c ∈ line := fun c hc =>
    ⟨by simpa using List.mem_takeWhile_imp hc, (List.takeWhile_sublist _).mem hc⟩
  have hkey : ∀ c ∈ Trim.trim isBlank ((line.takeWhile (· ≠ ';')).takeWhile (· ≠ '=')),
      c ∈ line.takeWhile (· ≠ ';') := fun c hc => (List.takeWhile_sublist _).mem (hname c hc)
  refine ⟨⟨Trim.trimmed_trim _, fun hc => (hpair _ (hkey _ hc)).1 rfl⟩, fun hc => ?_,
    ⟨Trim.trimmed_trim _, fun hc => (hpair _ (hvalue _ hc)).1 rfl⟩, fun c hc => (hpair c ?_).2⟩
  · simpa using List.mem_takeWhile_imp (hname _ hc)
  · exact (List.mem_append.1 hc).elim (hkey c) (hvalue c)

/-- An age that was written. -/
theorem age_digits {n : ℕ} : age (Nat.toDigits 10 n) = some (n : ℤ) := by
  have hdigit : ∀ c ∈ Nat.toDigits 10 n, c.isDigit = true :=
    fun c hc => Nat.isDigit_of_mem_toDigits (by omega) (by omega) hc
  have hnumber : number (Nat.toDigits 10 n) = n := Nat.ofDigitChars_ten_toDigits
  cases hdigits : Nat.toDigits 10 n with
  | nil => exact absurd hdigits Nat.toDigits_ne_nil
  | cons c digits =>
    rw [hdigits] at hdigit hnumber
    have hminus : c ≠ '-' := by
      rintro rfl
      exact absurd (hdigit '-' (by simp)) (by decide)
    rw [age, if_neg hminus, if_pos (List.all_eq_true.2 hdigit), hnumber]

/-! ## The cookies with one name -/

def named (name : Text) (jar : List Cookie) : List Cookie := jar.filter (·.name = name)

theorem mem_named {name : Text} {jar : List Cookie} {c : Cookie} :
    c ∈ named name jar ↔ c ∈ jar ∧ c.name = name := by
  simp [named]

/-- Among cookies of the jar, one that is alone with its name. -/
theorem find?_named {name : Text} {jar cookies : List Cookie} {c : Cookie} (h : named name jar = [c])
    (hsub : ∀ d ∈ cookies, d ∈ jar) :
    (cookies.find? fun d => d.name = name) = if c ∈ cookies then some c else none := by
  have hname : c.name = name := (mem_named.1 (h ▸ List.mem_singleton_self c)).2
  have honly : ∀ d ∈ cookies, d.name = name → d = c := by
    intro d hd hdname
    exact List.mem_singleton.1 (h ▸ mem_named.2 ⟨hsub d hd, hdname⟩)
  split_ifs with hmem
  · cases hfound : cookies.find? fun d => d.name = name with
    | none => simpa [hname] using List.find?_eq_none.1 hfound c hmem
    | some d => rw [honly d (List.mem_of_find?_eq_some hfound) (by simpa using List.find?_some hfound)]
  · rw [List.find?_eq_none]
    intro d hd hdname
    exact hmem (honly d hd (of_decide_eq_true hdname) ▸ hd)

theorem find?_named_nil {name : Text} {jar cookies : List Cookie} (h : named name jar = [])
    (hsub : ∀ d ∈ cookies, d ∈ jar) : (cookies.find? fun d => d.name = name) = none := by
  rw [List.find?_eq_none]
  intro d hd hdname
  have hmem : d ∈ named name jar := mem_named.2 ⟨hsub d hd, of_decide_eq_true hdname⟩
  rw [h] at hmem
  cases hmem

section
variable {r : Receipt} {jar : List Cookie} {line : Text} {l : Line} {name : Text}

theorem named_replace (c : Cookie) (jar : List Cookie) :
    named name (jar.map fun d => if c.Replaces d then c else d) =
      (named name jar).map fun d => if c.Replaces d then c else d := by
  rw [named, List.filter_map]
  congr 1
  refine List.filter_congr fun d _ => ?_
  simp only [Function.comp_apply]
  split_ifs with h
  · rw [h.1]
  · rfl

/-- A line leaves the cookies with other names alone. -/
theorem named_store_of_ne (h : ∀ l, parse line = some l → l.name ≠ name) :
    named name (store r jar line) = named name jar := by
  unfold store
  cases hparse : parse line with
  | none => rfl
  | some l =>
    have hne : (l.cookie r).name ≠ name := h l hparse
    have hother : ∀ d ∈ named name jar, ¬ (l.cookie r).Replaces d := by
      intro d hd hreplaces
      exact hne (hreplaces.1.trans (mem_named.1 hd).2)
    dsimp only
    split_ifs with haccepted hlive hany
    · rw [named, List.filter_comm, ← named, List.filter_eq_self]
      intro d hd
      exact decide_eq_true (hother d hd)
    · rw [named_replace]
      refine (List.map_congr_left fun d hd => ?_).trans (List.map_id _)
      rw [if_neg (hother d hd), id]
    · rw [named, List.filter_append, List.filter_cons_of_neg (by simp [hne]), List.filter_nil, List.append_nil,
        ← named]
    · rfl

/-- **A line sets its cookie**, where every cookie with its name is at the same
    place and there is one at most. -/
theorem named_store (hparse : parse line = some l) (haccepted : (l.cookie r).Accepted r.https)
    (hplace : ∀ d ∈ named l.name jar, (l.cookie r).Replaces d) (hone : (named l.name jar).length ≤ 1) :
    named l.name (store r jar line) = if (l.cookie r).live r.now then [l.cookie r] else [] := by
  unfold store
  rw [hparse]
  dsimp only
  rw [if_pos haccepted]
  cases hlive : (l.cookie r).live r.now with
  | false =>
    rw [if_pos rfl, if_neg Bool.false_ne_true, named, List.filter_comm, ← named, List.filter_eq_nil_iff]
    intro d hd
    simpa using hplace d hd
  | true =>
    rw [if_neg (by simp), if_pos rfl]
    split_ifs with hany
    · rw [named_replace, List.map_congr_left (g := fun _ => l.cookie r) fun d hd => if_pos (hplace d hd)]
      obtain ⟨d, hd, hreplaces⟩ := List.any_eq_true.1 hany
      have hmem : d ∈ named l.name jar :=
        mem_named.2 ⟨hd, (of_decide_eq_true hreplaces).1.symm⟩
      have hlength : (named l.name jar).length = 1 := by
        have := List.length_pos_of_mem hmem
        omega
      rw [List.map_const', hlength]
      rfl
    · have hnone : named l.name jar = [] := by
        rw [List.eq_nil_iff_forall_not_mem]
        intro d hd
        exact hany (List.any_eq_true.2 ⟨d, (mem_named.1 hd).1, decide_eq_true (hplace d hd)⟩)
      have hname : (l.cookie r).name = l.name := rfl
      rw [named, List.filter_append, ← named, hnone]
      simp [hname]

/-- What is kept was there, or the line says it. -/
theorem mem_store {c : Cookie} (h : c ∈ store r jar line) :
    c ∈ jar ∨ ∃ l, parse line = some l ∧ c = l.cookie r := by
  unfold store at h
  cases hparse : parse line with
  | none =>
    rw [hparse] at h
    exact Or.inl h
  | some l =>
    rw [hparse] at h
    dsimp only at h
    split_ifs at h with haccepted hlive hany
    · exact Or.inl (List.mem_filter.1 h).1
    · obtain ⟨d, hd, rfl⟩ := List.mem_map.1 h
      split_ifs
      · exact Or.inr ⟨l, rfl, rfl⟩
      · exact Or.inl hd
    · rcases List.mem_append.1 h with h | h
      · exact Or.inl h
      · exact Or.inr ⟨l, rfl, List.mem_singleton.1 h⟩
    · exact Or.inl h

end

/-! ## What is sent -/

section
variable {https : Bool} {now : ℤ} {path : Text} {jar : List Cookie} {c : Cookie}

theorem mem_sent : c ∈ sent https now path jar ↔ c ∈ jar ∧ c.live now = true ∧
    (c.secure = true → https = true) ∧ pathMatches path c.path = true := by
  rw [sent, List.mem_insertionSort, List.mem_filter]
  cases c.secure <;> simp [and_assoc]

/-- Below the root. -/
theorem pathMatches_root {rest : Text} : pathMatches ('/' :: rest) ['/'] = true := by
  simp [pathMatches]

end

theorem header_cons (c : Cookie) (cookies : List Cookie) :
    header (c :: cookies) = c.pair ++ (cookies.map fun d => ' ' :: d.pair).flatMap (';' :: ·) := by
  rw [header, List.map_cons]
  generalize c.pair = first
  induction cookies generalizing first with
  | nil => simp [List.intercalate]
  | cons d cookies ih =>
    rw [List.map_cons, List.intercalate_cons_cons, ih]
    simp

/-- The header, cut where the server cuts it. -/
theorem splitOn_header {c : Cookie} {cookies : List Cookie} (h : ∀ d ∈ c :: cookies, ';' ∉ d.pair) :
    (header (c :: cookies)).splitOn ';' = c.pair :: cookies.map fun d => ' ' :: d.pair := by
  rw [header_cons]
  refine splitOn_parts (h c (by simp)) fun p hp => ?_
  obtain ⟨d, hd, rfl⟩ := List.mem_map.1 hp
  simpa using h d (by simp [hd])

end CookieJar
