/-
  Absolute URLs and their origins (the URL Standard, RFC 6454).

  * `Hosts`: how hosts are read and written.  Both are parameters, with what is
    known of a host as it is written;
  * `parseUrl`: the origin of an http or https URL; `Origin.serialize`: what a
    browser sends for it;
  * `parseUrl_serialize`: an origin as it is serialised, with anything behind it
    that ends an authority, is read as that origin.
-/
import SessionBroker.Lib.Url
import Mathlib.Data.Nat.Digits.Lemmas

namespace Web

/-! ## Hosts -/

/-- A character that a host may be written with: printable ASCII, and none that
    ends a host in a URL. -/
def isHostChar (c : Char) : Bool :=
  0x20 < c.toNat && c.toNat < 0x7F && !(isSlash c || c = '?' || c = '#' || c = '@')

/-- The host parser and the host serialiser, for special schemes. -/
structure Hosts (H : Type) where
  parse : List Char → Option H
  text : H → List Char
  parse_text : ∀ h, parse (text h) = some h
  text_ne_nil : ∀ h, text h ≠ []
  isHostChar_text : ∀ h, ∀ c ∈ text h, isHostChar c = true
  brackets : ∀ h, (∀ c ∈ text h, c ≠ ':' ∧ c ≠ '[' ∧ c ≠ ']') ∨
    ∃ inside, text h = '[' :: (inside ++ [']']) ∧ '[' ∉ inside ∧ ']' ∉ inside

/-! ## Serialised origins -/

def Scheme.text : Scheme → List Char
  | http => "http".toList
  | https => "https".toList

def portText : Option ℕ → List Char
  | none => []
  | some port => ':' :: Nat.toDigits 10 port

variable {H : Type} (hosts : Hosts H)

/-- The host and the port. -/
def Origin.authority (o : Origin H) : List Char := hosts.text o.host ++ portText o.port

def Origin.serialize (o : Origin H) : List Char := o.scheme.text ++ "://".toList ++ o.authority hosts

/-- The origin of an absolute URL, if it is an http or https URL. -/
def parseUrl (input : List Char) : Option (Origin H) :=
  let input := clean input
  let scheme := (input.takeWhile (· ≠ ':')).map Char.toLower
  let rest := (input.dropWhile (· ≠ ':')).tail
  if ':' ∉ input then none
  else if scheme = Scheme.https.text then parseAuthority hosts.parse .https rest
  else if scheme = Scheme.http.text then parseAuthority hosts.parse .http rest
  else none

/-- The port is a port, and not the one of the scheme. -/
def Origin.PortOk (o : Origin H) : Prop :=
  ∀ port, o.port = some port → port < 65536 ∧ port ≠ o.scheme.defaultPort

/-! ## Reading what was written -/

theorem parsePort_ok {scheme : Scheme} {text : List Char} {port : Option ℕ}
    (h : parsePort scheme text = some port) :
    ∀ p, port = some p → p < 65536 ∧ p ≠ scheme.defaultPort := by
  unfold parsePort at h
  rintro p rfl
  cases text with
  | nil => cases h
  | cons c rest =>
    dsimp only at h
    split_ifs at h with hdigits hdefault
    · cases h
    · rw [Option.some_inj, Option.some_inj] at h
      rw [h] at hdigits hdefault
      exact ⟨hdigits.2, hdefault⟩

/-- What is read has a port of its own or none. -/
theorem parseAuthority_ok {scheme : Scheme} {text : List Char} {o : Origin H}
    (h : parseAuthority hosts.parse scheme text = some o) : o.scheme = scheme ∧ o.PortOk := by
  unfold parseAuthority at h
  dsimp only at h
  split_ifs at h
  unfold parseHostPort at h
  dsimp only at h
  split_ifs at h
  simp only [Option.bind_eq_bind, Option.bind_eq_some_iff, Option.pure_def, Option.some.injEq] at h
  obtain ⟨host, -, port, hport, rfl⟩ := h
  exact ⟨rfl, parsePort_ok hport⟩

theorem parsePort_digits {scheme : Scheme} {port : ℕ} (hlt : port < 65536)
    (hne : port ≠ scheme.defaultPort) :
    parsePort scheme (Nat.toDigits 10 port) = some (some port) := by
  have hvalue : (Nat.toDigits 10 port).foldl (fun n c => 10 * n + (c.toNat - '0'.toNat)) 0 = port :=
    Nat.ofDigitChars_ten_toDigits
  have hall : (Nat.toDigits 10 port).all Char.isDigit = true := by
    rw [List.all_eq_true]
    exact fun c hc => Nat.isDigit_of_mem_toDigits (by omega) (by omega) hc
  unfold parsePort
  cases hdigits : Nat.toDigits 10 port with
  | nil => exact absurd hdigits Nat.toDigits_ne_nil
  | cons c rest =>
    rw [hdigits] at hvalue hall
    dsimp only
    rw [hvalue, if_pos ⟨hall, hlt⟩, if_neg hne]

/-- Nothing of a domain or an address in brackets is taken for the start of the
    port. -/
theorem splitPort_plain {text : List Char} (h : ∀ c ∈ text, c ≠ ':' ∧ c ≠ '[' ∧ c ≠ ']')
    (rest : List Char) :
    splitPort false (text ++ rest) = (text ++ (splitPort false rest).1, (splitPort false rest).2) := by
  induction text with
  | nil => rfl
  | cons c text ih =>
    obtain ⟨hcolon, hopen, hclose⟩ := h c (.head _)
    rw [List.cons_append, splitPort, if_neg fun hc => hcolon hc.1, if_neg hopen, if_neg hclose]
    dsimp only
    rw [ih fun x hx => h x (.tail _ hx)]
    rfl

theorem splitPort_inside {text : List Char} (hopen : '[' ∉ text) (hclose : ']' ∉ text)
    (rest : List Char) :
    splitPort true (text ++ rest) = (text ++ (splitPort true rest).1, (splitPort true rest).2) := by
  induction text with
  | nil => rfl
  | cons c text ih =>
    rw [List.mem_cons, not_or] at hopen hclose
    rw [List.cons_append, splitPort, if_neg fun hc => Bool.noConfusion hc.2, if_neg (Ne.symm hopen.1),
      if_neg (Ne.symm hclose.1)]
    dsimp only
    rw [ih hopen.2 hclose.2]
    rfl

theorem splitPort_authority (o : Origin H) :
    splitPort false (o.authority hosts) = (hosts.text o.host, o.port.map (Nat.toDigits 10)) := by
  have hport : splitPort false (portText o.port) = ([], o.port.map (Nat.toDigits 10)) := by
    cases o.port <;> rfl
  unfold Origin.authority
  rcases hosts.brackets o.host with hplain | ⟨inside, htext, hopen, hclose⟩
  · rw [splitPort_plain hplain, hport, List.append_nil]
  · have hafter : splitPort true (']' :: portText o.port) =
        ([']'], o.port.map (Nat.toDigits 10)) := by
      rw [splitPort, if_neg fun hc => Bool.noConfusion hc.2]
      show (']' :: (splitPort false (portText o.port)).1, (splitPort false (portText o.port)).2) = _
      rw [hport]
    rw [htext, List.cons_append, List.append_assoc, List.singleton_append, splitPort,
      if_neg fun hc => absurd hc.1 (by decide)]
    show ('[' :: (splitPort true (inside ++ ']' :: portText o.port)).1,
      (splitPort true (inside ++ ']' :: portText o.port)).2) = _
    rw [splitPort_inside hopen hclose, hafter]

theorem isHostChar_spec {c : Char} (h : isHostChar c = true) : 0x20 < c.toNat ∧ c.toNat < 0x7F ∧
    isSlash c = false ∧ c ≠ '?' ∧ c ≠ '#' ∧ c ≠ '@' := by
  simpa [isHostChar, and_assoc] using h

theorem isHostChar_digit {c : Char} (h : c.isDigit = true) : isHostChar c = true := by
  obtain ⟨hlo, hhi⟩ := Char.isDigit_iff_toNat.1 h
  have hzero : '0'.toNat = 48 := rfl
  have hnine : '9'.toNat = 57 := rfl
  have hne : ∀ d : Char, d.toNat < 48 ∨ 57 < d.toNat → c ≠ d := by
    rintro d hd rfl
    omega
  simp only [isHostChar, isSlash, Bool.and_eq_true, decide_eq_true_eq, Bool.not_eq_true',
    Bool.or_eq_false_iff, decide_eq_false_iff_not]
  exact ⟨⟨by omega, by omega⟩, ⟨⟨⟨hne _ (by decide), hne _ (by decide)⟩, hne _ (by decide)⟩,
    hne _ (by decide)⟩, hne _ (by decide)⟩

/-- What ends an authority. -/
def endsAuthority (c : Char) : Bool := isSlash c || c = '?' || c = '#'

/-- Characters that may stand in an authority as it is written. -/
theorem mem_authority {o : Origin H} {c : Char} (h : c ∈ o.authority hosts) :
    isHostChar c = true := by
  rcases List.mem_append.1 h with hhost | hport
  · exact hosts.isHostChar_text _ _ hhost
  · cases hp : o.port with
    | none =>
      rw [hp] at hport
      cases hport
    | some port =>
      rw [hp] at hport
      rcases List.mem_cons.1 hport with rfl | hdigit
      · decide
      · exact isHostChar_digit (Nat.isDigit_of_mem_toDigits (by omega) (by omega) hdigit)

variable {hosts}

theorem authority_ne_nil (o : Origin H) : o.authority hosts ≠ [] := by
  intro h
  exact hosts.text_ne_nil _ (List.append_eq_nil_iff.1 h).1

/-- **An authority is read as it was written.** -/
theorem parseAuthority_authority {o : Origin H} (hport : o.PortOk) {tail : List Char}
    (htail : ∀ c, tail.head? = some c → endsAuthority c = true) :
    parseAuthority hosts.parse o.scheme ("//".toList ++ o.authority hosts ++ tail) = some o := by
  have hchars : ∀ c ∈ o.authority hosts, isHostChar c = true := fun c => mem_authority hosts
  have hslashes : ("//".toList ++ o.authority hosts ++ tail).dropWhile isSlash =
      o.authority hosts ++ tail := by
    cases ha : o.authority hosts with
    | nil => exact absurd ha (authority_ne_nil o)
    | cons c rest =>
      have hc := (isHostChar_spec (hchars c (ha ▸ List.mem_cons_self))).2.2.1
      show ('/' :: '/' :: (c :: rest ++ tail)).dropWhile isSlash = c :: rest ++ tail
      rw [List.dropWhile_cons_of_pos (by decide), List.dropWhile_cons_of_pos (by decide),
        List.cons_append, List.dropWhile_cons_of_neg (by simp [hc])]
  have htake : (o.authority hosts ++ tail).takeWhile
      (fun c => !(isSlash c || c = '?' || c = '#')) = o.authority hosts := by
    refine Trim.takeWhile_stop (fun c hc => ?_) fun d hd => ?_
    · obtain ⟨-, -, hslash, hquery, hhash, -⟩ := isHostChar_spec (hchars c hc)
      simp [hslash, hquery, hhash]
    · have hends := htail d hd
      rw [endsAuthority] at hends
      simp [hends]
  have hat : '@' ∉ o.authority hosts := fun h => (isHostChar_spec (hchars _ h)).2.2.2.2.2 rfl
  have hright : (o.authority hosts).rtakeWhile (· ≠ '@') = o.authority hosts := by
    rw [List.rtakeWhile_eq_self_iff]
    intro c hc
    exact decide_eq_true fun heq => hat (heq ▸ hc)
  unfold parseAuthority
  dsimp only
  rw [hslashes, htake, hright, if_neg fun h => hat h.1]
  unfold parseHostPort
  rw [splitPort_authority]
  dsimp only
  rw [if_neg (hosts.text_ne_nil _), hosts.parse_text]
  have hread : parsePort o.scheme ((o.port.map (Nat.toDigits 10)).getD []) = some o.port := by
    cases hp : o.port with
    | none => rfl
    | some port => exact parsePort_digits (hport port hp).1 (hport port hp).2
  simp only [Option.bind_eq_bind, Option.bind_some, hread]
  rfl

/-! ## Whole URLs -/

/-- Without blanks in front and without tabs and line breaks, only the end is
    cleaned. -/
theorem clean_eq {input : List Char} (hhead : ∀ c, input.head? = some c → isBlank c = false)
    (h : ∀ c ∈ input, isTabOrNewline c = false) : clean input = input.rdropWhile isBlank := by
  have hstart : input.dropWhile isBlank = input := by
    cases input with
    | nil => rfl
    | cons c rest => exact List.dropWhile_cons_of_neg (by simp [hhead c rfl])
  rw [clean, hstart, List.filter_eq_self]
  intro c hc
  simp [h c ((List.rdropWhile_prefix _ _).sublist.mem hc)]

theorem rdropWhile_append_tail {l tail : List Char} (hl : ∀ c, l.getLast? = some c → isBlank c = false)
    (htail : ∀ c, tail.head? = some c → isBlank c = false) :
    ∃ tail', (l ++ tail).rdropWhile isBlank = l ++ tail' ∧ tail'.head? = tail.head? := by
  cases tail with
  | nil =>
    refine ⟨[], ?_, rfl⟩
    rw [List.append_nil, List.rdropWhile_eq_self_iff]
    intro hne
    simp [hl _ (List.getLast?_eq_getLast_of_ne_nil hne)]
  | cons c rest =>
    exact ⟨c :: rest.rdropWhile isBlank, Trim.rdropWhile_append_cons (htail c rfl) l rest, rfl⟩

theorem parseUrl_scheme (scheme : Scheme) {rest : List Char}
    (h : ∀ c ∈ rest, isTabOrNewline c = false) :
    parseUrl hosts (scheme.text ++ ':' :: rest) =
      parseAuthority hosts.parse scheme (rest.rdropWhile isBlank) := by
  have htext : ∀ c ∈ scheme.text, isTabOrNewline c = false := by
    cases scheme <;> simp [Scheme.text, isTabOrNewline]
  have hclean : clean (scheme.text ++ ':' :: rest) = scheme.text ++ ':' :: rest.rdropWhile isBlank := by
    rw [clean_eq, Trim.rdropWhile_append_cons (by decide)]
    · cases scheme <;> (intro c hc; cases hc; decide)
    · intro c hc
      rcases List.mem_append.1 hc with hc | hc
      · exact htext c hc
      · rcases List.mem_cons.1 hc with rfl | hc
        · decide
        · exact h c hc
  have hmem : ':' ∈ scheme.text ++ ':' :: rest.rdropWhile isBlank := by simp
  unfold parseUrl
  dsimp only
  rw [hclean, if_neg (not_not.2 hmem)]
  cases scheme <;> rfl

/-- **Round trip**: an origin as it is serialised, with anything behind it that
    ends an authority. -/
theorem parseUrl_serialize {o : Origin H} (hport : o.PortOk) {tail : List Char}
    (htail : ∀ c, tail.head? = some c → endsAuthority c = true)
    (hclean : ∀ c ∈ tail, isTabOrNewline c = false) :
    parseUrl hosts (o.serialize hosts ++ tail) = some o := by
  have hhost : ∀ {c}, isHostChar c = true → isBlank c = false ∧ isTabOrNewline c = false := by
    intro c hc
    have hlt := (isHostChar_spec hc).1
    simp only [isBlank, isTabOrNewline, Bool.or_eq_false_iff, decide_eq_false_iff_not]
    omega
  have hends : ∀ {c}, endsAuthority c = true → isBlank c = false := by
    intro c hc
    simp only [endsAuthority, isSlash, Bool.or_eq_true, decide_eq_true_eq] at hc
    rcases hc with ((rfl | rfl) | rfl) | rfl <;> decide
  have hinput : o.serialize hosts ++ tail =
      o.scheme.text ++ ':' :: (("//".toList ++ o.authority hosts) ++ tail) := by
    simp [Origin.serialize]
  have hlast : ∀ c, ("//".toList ++ o.authority hosts).getLast? = some c → isBlank c = false := by
    intro c hc
    rw [List.getLast?_append_of_ne_nil _ (authority_ne_nil o)] at hc
    exact (hhost (mem_authority hosts (List.mem_of_getLast? hc))).1
  obtain ⟨tail', hdrop, hhead⟩ := rdropWhile_append_tail hlast fun c hc => hends (htail c hc)
  rw [hinput, parseUrl_scheme, hdrop]
  · exact parseAuthority_authority hport fun c hc => htail c (hhead ▸ hc)
  · intro c hc
    rcases List.mem_append.1 hc with hc | hc
    · rcases List.mem_append.1 hc with hc | hc
      · have hslash : ∀ d ∈ "//".toList, isTabOrNewline d = false := by
          simp [isTabOrNewline]
        exact hslash c hc
      · exact (hhost (mem_authority hosts hc)).2
    · exact hclean c hc

end Web
