/-
  `base_url` (`config.rs`, `http/mod.rs`) as the broker reads it, and as a
  browser does.

  * `validateHttpUrl`, `HttpConfig.new` and `isPlaintextOffLoopback` each take
    the host from the string in their own way;
  * `WrittenPlainly`: the authority is written as an origin is serialised, or an
    http URL names no loopback host to any reader;
  * `base_url_iff`: the broker reads exactly these as a browser does.
-/
import SessionBroker.Lib.Origin
import SessionBroker.UserToken
import SessionBroker.Verifiers

namespace SessionBroker

open Web

/-! ## Reading the URL -/

/-- The part of `str::split` before the first of the characters. -/
def before (cs : List Char) (s : String) : String := .ofList (s.toList.takeWhile (· ∉ cs))

/-- `validate_http_url`; `debug` is how `{:?}` writes a string. -/
def validateHttpUrl (debug : String → String) (field url : String) : Except ConfigInvalid Unit :=
  if url.toList.any isWhiteSpace then
    .error ⟨field, s!"must not contain whitespace (got {debug url})"⟩
  else
    match (stripPrefix "https://" url).or (stripPrefix "http://" url) with
    | none => .error ⟨field, s!"must start with http:// or https:// (got {debug url})"⟩
    | some rest =>
      if before [':'] (before ['/', '?', '#'] rest) = "" then
        .error ⟨field, s!"missing host (got {debug url})"⟩
      else .ok ()

inductive HttpConfigError where
  | badBaseUrl (url : String)
  | insecureOffLoopback (url : String)
deriving DecidableEq, Repr

/-- `HttpConfig::new`, without the lifetime of the cookies. -/
def HttpConfig.new (baseUrl : String) : Except HttpConfigError HttpConfig :=
  match ((stripPrefix "https://" baseUrl).map (·, true)).or
    ((stripPrefix "http://" baseUrl).map (·, false)) with
  | none => .error (.badBaseUrl baseUrl)
  | some (rest, secure) =>
    let authority := before ['/'] rest
    if authority = "" then .error (.badBaseUrl baseUrl)
    else
      let host := before [':'] authority
      let loopback := host ∈ ["localhost", "127.0.0.1", "[::1]", "::1"]
      if secure = false ∧ ¬loopback then .error (.insecureOffLoopback baseUrl)
      else
        .ok {
          origin := (if secure then "https" else "http") ++ "://" ++ authority
          secure
          loginPath := "/auth/login" }

/-- `IssuerConfig::is_plaintext_off_loopback`. -/
def isPlaintextOffLoopback (issuer : String) : Bool :=
  match stripPrefix "http://" issuer with
  | none => false
  | some rest =>
    let authority := before ['/', '?', '#'] rest
    let host := match stripPrefix "[" authority with
      | some v6 => before [']'] v6
      | none => before [':'] authority
    host ∉ ["localhost", "127.0.0.1", "::1"]

/-! ## As a browser reads it -/

/-- The text of a header. -/
def headerBytes (text : List Char) : Bytes := text.map fun c => c.toNat.toUInt8

variable {H : Type} (hosts : Hosts H)

/-- The URL parser reads a loopback host. -/
def NamesLoopback (url : String) : Prop :=
  ∃ o, parseUrl hosts url.toList = some o ∧
    String.ofList (hosts.text o.host) ∈ ["localhost", "127.0.0.1", "[::1]"]

/-- **As a browser reads it**: the origin is the one that a page at the URL sends,
    and passes for it; a plain http URL is accepted iff its host is loopback,
    and iff an issuer under it is not flagged. -/
structure ReadAsBrowser (baseUrl : String) : Prop where
  origin : ∀ http, HttpConfig.new baseUrl = .ok http → ∃ o, parseUrl hosts baseUrl.toList = some o ∧
    http.origin = .ofList (o.serialize hosts) ∧
    requireSameOrigin none (some (headerBytes (o.serialize hosts))) http.origin = .ok ()
  loopback : ∀ rest, baseUrl = "http://" ++ rest →
    ((∃ http, HttpConfig.new baseUrl = .ok http) ↔ NamesLoopback hosts baseUrl)
  issuer : ∀ rest, baseUrl = "http://" ++ rest →
    ∀ path : String, (∀ c, path.toList.head? = some c → c = '/') →
      ((∃ http, HttpConfig.new baseUrl = .ok http) ↔
        isPlaintextOffLoopback (baseUrl ++ path) = false)

/-- The authority is written as that of an origin is: the host as the host
    serialiser writes it, and no port, or one in decimal that is not the
    scheme's own. -/
def Canonical (scheme : Scheme) (authority : String) : Prop :=
  ∃ o : Origin H, o.scheme = scheme ∧ o.PortOk ∧ authority.toList = o.authority hosts

/-- **Written plainly**: an https URL, or an http one with `localhost` or
    `127.0.0.1` up to the first colon, has such an authority; any other http URL
    names no loopback host, and none in brackets. -/
structure WrittenPlainly (baseUrl : String) : Prop where
  https : ∀ rest, baseUrl = "https://" ++ rest → Canonical hosts .https (before ['/'] rest)
  http : ∀ rest, baseUrl = "http://" ++ rest →
    before [':'] (before ['/'] rest) ∈ ["localhost", "127.0.0.1"] →
    Canonical hosts .http (before ['/'] rest)
  remote : ∀ rest, baseUrl = "http://" ++ rest →
    before [':'] (before ['/'] rest) ∉ ["localhost", "127.0.0.1"] →
    ¬NamesLoopback hosts baseUrl ∧ ∀ inside, before ['/', '?', '#'] rest = "[" ++ inside →
      before [']'] inside ∉ ["localhost", "127.0.0.1", "::1"]

/-! ## What the readers return -/

theorem stripPrefix_append (start rest : String) : stripPrefix start (start ++ rest) = some rest :=
  stripPrefix_eq_some.2 String.toList_append

theorem stripPrefix_https_http (rest : String) : stripPrefix "https://" ("http://" ++ rest) = none := by
  rw [stripPrefix, if_neg]
  rw [String.toList_append]
  rintro ⟨t, ht⟩
  exact absurd ht (by simp)

theorem eq_append_of_stripPrefix {start url rest : String} (h : stripPrefix start url = some rest) :
    url = start ++ rest := by
  rw [← String.toList_inj, String.toList_append]
  exact stripPrefix_eq_some.1 h

theorem http_ne_https (rest rest' : String) : "http://" ++ rest ≠ "https://" ++ rest' := by
  intro h
  have hnone := stripPrefix_https_http rest
  rw [h, stripPrefix_append] at hnone
  cases hnone

/-- What passes the check. -/
theorem validateHttpUrl_ok {debug : String → String} {field url : String}
    (h : validateHttpUrl debug field url = .ok ()) :
    (∀ c ∈ url.toList, isWhiteSpace c = false) ∧
    ∃ rest, (url = "https://" ++ rest ∨ url = "http://" ++ rest) ∧
      before [':'] (before ['/', '?', '#'] rest) ≠ "" := by
  unfold validateHttpUrl at h
  split_ifs at h with hblank
  split at h
  · cases h
  · rename_i rest hrest
    split_ifs at h with hhost
    refine ⟨fun c hc => ?_, rest, ?_, hhost⟩
    · rw [List.any_eq_true, not_exists] at hblank
      simpa [hc] using hblank c
    · rcases Option.or_eq_some_iff.1 hrest with hs | ⟨-, hs⟩
      · exact Or.inl (eq_append_of_stripPrefix hs)
      · exact Or.inr (eq_append_of_stripPrefix hs)

theorem HttpConfig.new_https {rest : String} (h : before ['/'] rest ≠ "") :
    HttpConfig.new ("https://" ++ rest) =
      .ok ⟨"https://" ++ before ['/'] rest, true, "/auth/login"⟩ := by
  unfold HttpConfig.new
  rw [stripPrefix_append]
  dsimp only [Option.map_some, Option.some_or]
  rw [if_neg h, if_neg fun hc => Bool.noConfusion hc.1]
  rfl

theorem HttpConfig.new_http {rest : String} (h : before ['/'] rest ≠ "") :
    HttpConfig.new ("http://" ++ rest) =
      if before [':'] (before ['/'] rest) ∈ ["localhost", "127.0.0.1", "[::1]", "::1"] then
        .ok ⟨"http://" ++ before ['/'] rest, false, "/auth/login"⟩
      else .error (.insecureOffLoopback ("http://" ++ rest)) := by
  unfold HttpConfig.new
  rw [stripPrefix_append, stripPrefix_https_http]
  dsimp only [Option.map_some, Option.map_none, Option.none_or]
  rw [if_neg h]
  by_cases hin : before [':'] (before ['/'] rest) ∈ ["localhost", "127.0.0.1", "[::1]", "::1"]
  · rw [if_neg fun hc => hc.2 hin, if_pos hin]
    rfl
  · rw [if_pos ⟨rfl, hin⟩, if_neg hin]

/-! ## Kinds of URLs -/

section
variable {hosts} {rest : String}

theorem writtenPlainly_https :
    WrittenPlainly hosts ("https://" ++ rest) ↔ Canonical hosts .https (before ['/'] rest) := by
  constructor
  · exact fun h => h.https rest rfl
  · intro h
    constructor
    · intro rest' heq
      rw [String.append_right_inj] at heq
      exact heq ▸ h
    · exact fun rest' heq => absurd heq.symm (http_ne_https rest' rest)
    · exact fun rest' heq => absurd heq.symm (http_ne_https rest' rest)

theorem writtenPlainly_local (hin : before [':'] (before ['/'] rest) ∈ ["localhost", "127.0.0.1"]) :
    WrittenPlainly hosts ("http://" ++ rest) ↔ Canonical hosts .http (before ['/'] rest) := by
  constructor
  · exact fun h => h.http rest rfl hin
  · intro h
    constructor
    · exact fun rest' heq => absurd heq (http_ne_https rest rest')
    · intro rest' heq _
      rw [String.append_right_inj] at heq
      exact heq ▸ h
    · intro rest' heq hnot
      rw [String.append_right_inj] at heq
      rw [← heq] at hnot
      exact absurd hin hnot

theorem writtenPlainly_remote (hnot : before [':'] (before ['/'] rest) ∉ ["localhost", "127.0.0.1"]) :
    WrittenPlainly hosts ("http://" ++ rest) ↔ ¬NamesLoopback hosts ("http://" ++ rest) ∧
      ∀ inside, before ['/', '?', '#'] rest = "[" ++ inside →
        before [']'] inside ∉ ["localhost", "127.0.0.1", "::1"] := by
  constructor
  · exact fun h => h.remote rest rfl hnot
  · intro h
    constructor
    · exact fun rest' heq => absurd heq (http_ne_https rest rest')
    · intro rest' heq hin
      rw [String.append_right_inj] at heq
      rw [← heq] at hin
      exact absurd hin hnot
    · intro rest' heq _
      rw [String.append_right_inj] at heq
      exact heq ▸ h

end

/-! ## Parts of the authority -/

theorem before_toList (cs : List Char) (s : String) :
    (before cs s).toList = s.toList.takeWhile (· ∉ cs) :=
  String.toList_ofList

/-- The rest of a split starts at a separator. -/
theorem exists_before (cs : List Char) (s : String) : ∃ tail : List Char,
    s.toList = (before cs s).toList ++ tail ∧ ∀ c, tail.head? = some c → c ∈ cs := by
  refine ⟨s.toList.dropWhile (· ∉ cs), ?_, fun c hc => ?_⟩
  · rw [before_toList, List.takeWhile_append_dropWhile]
  · by_contra hnot
    have hne : s.toList.dropWhile (· ∉ cs) ≠ [] := by
      intro hnil
      rw [hnil] at hc
      cases hc
    have hhead := List.head_dropWhile_not (· ∉ cs) hne
    rw [List.head?_eq_some_head hne, Option.some_inj] at hc
    rw [hc] at hhead
    simp [hnot] at hhead

theorem not_mem_before {c : Char} {cs : List Char} (hc : c ∈ cs) (s : String) :
    c ∉ (before cs s).toList := by
  rw [before_toList]
  intro hmem
  have := List.mem_takeWhile_imp hmem
  simp [hc] at this

/-- A host before a colon is none that has one. -/
theorem before_colon_mem_iff (s : String) (more : List String) {names : List String}
    (hnames : ∀ name ∈ names, ':' ∈ name.toList) : before [':'] s ∈ more ++ names ↔ before [':'] s ∈ more := by
  rw [List.mem_append, or_iff_left]
  exact fun h => not_mem_before (List.mem_singleton_self _) s (hnames _ h)

theorem before_colon_eq_empty {rest : String} (h : before ['/'] rest = "") :
    before [':'] (before ['/', '?', '#'] rest) = "" := by
  have hnone : before ['/', '?', '#'] rest = "" := by
    rw [← String.toList_inj, before_toList] at h ⊢
    cases hl : rest.toList with
    | nil => rfl
    | cons c more =>
      rw [hl] at h
      have hc : c = '/' := by
        by_contra hne
        rw [List.takeWhile_cons_of_pos (by simp [hne])] at h
        cases h
      exact List.takeWhile_cons_of_neg (by simp [hc])
  rw [hnone]
  rfl

/-! ## The authority in a browser -/

variable {hosts}

theorem slashes_clean {rest : List Char} (h : ∀ c ∈ rest, isTabOrNewline c = false) :
    ∀ c ∈ "//".toList ++ rest, isTabOrNewline c = false := by
  intro c hc
  rcases List.mem_append.1 hc with hc | hc
  · have hslash : ∀ d ∈ "//".toList, isTabOrNewline d = false := by simp [isTabOrNewline]
    exact hslash c hc
  · exact h c hc

theorem parseUrl_ok {scheme : Scheme} {url rest : List Char} {o : Origin H}
    (hurl : url = scheme.text ++ ':' :: ("//".toList ++ rest))
    (hclean : ∀ c ∈ rest, isTabOrNewline c = false) (h : parseUrl hosts url = some o) :
    o.scheme = scheme ∧ o.PortOk := by
  rw [hurl, parseUrl_scheme scheme (slashes_clean hclean)] at h
  exact parseAuthority_ok hosts h

theorem serialize_eq (hosts : Hosts H) {scheme : Scheme} {o : Origin H} (h : o.scheme = scheme) (tail : List Char) :
    scheme.text ++ ':' :: ("//".toList ++ (o.authority hosts ++ tail)) = o.serialize hosts ++ tail := by
  subst h
  simp [Origin.serialize]

/-- **An authority is canonical** exactly if it is the one the browser reads, as
    it is serialised. -/
theorem canonical_iff {scheme : Scheme} {url : List Char} {rest : String}
    (hurl : url = scheme.text ++ ':' :: ("//".toList ++ rest.toList))
    (hclean : ∀ c ∈ rest.toList, isTabOrNewline c = false) :
    Canonical hosts scheme (before ['/'] rest) ↔ ∃ o, parseUrl hosts url = some o ∧
      (before ['/'] rest).toList = o.authority hosts := by
  constructor
  · rintro ⟨o, hscheme, hport, hauthority⟩
    obtain ⟨tail, hrest, htail⟩ := exists_before ['/'] rest
    refine ⟨o, ?_, hauthority⟩
    rw [hurl, hrest, hauthority, serialize_eq hosts hscheme]
    refine parseUrl_serialize hport (fun c hc => ?_) fun c hc => hclean c ?_
    · rw [List.mem_singleton.1 (htail c hc)]
      decide
    · rw [hrest]
      exact List.mem_append_right _ hc
  · rintro ⟨o, hparse, hauthority⟩
    obtain ⟨hscheme, hport⟩ := parseUrl_ok hurl hclean hparse
    exact ⟨o, hscheme, hport, hauthority⟩

theorem headerText_headerBytes {text : List Char} (h : ∀ c ∈ text, 32 ≤ c.toNat ∧ c.toNat < 127) :
    headerText (headerBytes text) = some (.ofList text) := by
  have hbyte : ∀ c ∈ text, c.toNat.toUInt8.toNat = c.toNat := by
    intro c hc
    have hlt := (h c hc).2
    show (UInt8.ofNat c.toNat).toNat = c.toNat
    rw [UInt8.toNat_ofNat', Nat.mod_eq_of_lt (by omega)]
  have hall : (headerBytes text).all (fun b => (32 ≤ b && b < 127) || b == 9) = true := by
    rw [List.all_eq_true]
    intro b hb
    obtain ⟨c, hc, rfl⟩ := List.mem_map.1 hb
    obtain ⟨hlo, hhi⟩ := h c hc
    simp only [Bool.or_eq_true, Bool.and_eq_true, decide_eq_true_eq, UInt8.le_iff_toNat_le,
      UInt8.lt_iff_toNat_lt, hbyte c hc]
    exact Or.inl ⟨hlo, hhi⟩
  have hback : (headerBytes text).map (fun b => Char.ofNat b.toNat) = text := by
    rw [headerBytes, List.map_map, List.map_congr_left (g := id), List.map_id]
    intro c hc
    show Char.ofNat c.toNat.toUInt8.toNat = c
    rw [hbyte c hc, Char.ofNat_toNat]
  rw [headerText, if_pos hall, hback]

/-- A serialised origin passes for itself. -/
theorem requireSameOrigin_serialize (o : Origin H) :
    requireSameOrigin none (some (headerBytes (o.serialize hosts))) (.ofList (o.serialize hosts)) =
      .ok () := by
  have hprint : ∀ c ∈ o.serialize hosts, 32 ≤ c.toNat ∧ c.toNat < 127 := by
    intro c hc
    rw [Origin.serialize] at hc
    rcases List.mem_append.1 hc with hc | hc
    · have hscheme : ∀ d ∈ o.scheme.text ++ "://".toList, 32 ≤ d.toNat ∧ d.toNat < 127 := by
        cases o.scheme <;> simp [Scheme.text]
      exact hscheme c hc
    · obtain ⟨hlo, hhi, -⟩ := isHostChar_spec (mem_authority hosts hc)
      omega
  unfold requireSameOrigin
  simp only [Option.bind_none, Option.bind_some, headerText_headerBytes hprint, if_true]

/-- Up to a colon, a canonical authority that starts with no bracket is its
    host. -/
theorem before_colon_authority {o : Origin H} {authority : String}
    (h : authority.toList = o.authority hosts) (hb : authority.toList.head? ≠ some '[') :
    before [':'] authority = .ofList (hosts.text o.host) := by
  rcases hosts.brackets o.host with hplain | ⟨inside, htext, -, -⟩
  · rw [before, h, Origin.authority, Trim.takeWhile_stop]
    · intro c hc
      simp [(hplain c hc).1]
    · intro c hc
      cases hport : o.port with
      | none => simp [hport, portText] at hc
      | some port =>
        rw [hport] at hc
        cases hc
        simp
  · rw [h, Origin.authority, htext] at hb
    exact absurd rfl hb

/-! ## The verdict on an issuer -/

theorem before_append_path {cs : List Char} (hslash : '/' ∈ cs) (rest : String) {path : String}
    (hpath : ∀ c, path.toList.head? = some c → c = '/') :
    before cs (rest ++ path) = before cs rest := by
  have hstop : path.toList.takeWhile (· ∉ cs) = [] := by
    cases hp : path.toList with
    | nil => rfl
    | cons c more =>
      have hc := hpath c (by rw [hp]; rfl)
      exact List.takeWhile_cons_of_neg (by simp [hc, hslash])
  unfold before
  rw [String.toList_append, List.takeWhile_append, hstop, List.append_nil]
  split_ifs with hall
  · rw [(List.takeWhile_prefix _).eq_of_length hall]
  · rfl

/-- An issuer under the URL gets the verdict of the URL. -/
theorem isPlaintextOffLoopback_append (rest : String) {path : String}
    (hpath : ∀ c, path.toList.head? = some c → c = '/') :
    isPlaintextOffLoopback ("http://" ++ rest ++ path) = isPlaintextOffLoopback ("http://" ++ rest) := by
  unfold isPlaintextOffLoopback
  rw [String.append_assoc, stripPrefix_append, stripPrefix_append]
  dsimp only
  rw [before_append_path (by decide) rest hpath]

theorem isPlaintextOffLoopback_eq_false {rest : String} :
    isPlaintextOffLoopback ("http://" ++ rest) = false ↔
      (∃ inside, before ['/', '?', '#'] rest = "[" ++ inside ∧
        before [']'] inside ∈ ["localhost", "127.0.0.1", "::1"]) ∨
      (before ['/', '?', '#'] rest).toList.head? ≠ some '[' ∧
        before [':'] (before ['/', '?', '#'] rest) ∈ ["localhost", "127.0.0.1"] := by
  unfold isPlaintextOffLoopback
  rw [stripPrefix_append]
  dsimp only
  generalize before ['/', '?', '#'] rest = authority
  cases hstrip : stripPrefix "[" authority with
  | some inside =>
    have hauthority := eq_append_of_stripPrefix hstrip
    have hhead : authority.toList.head? = some '[' := by
      rw [hauthority, String.toList_append]
      rfl
    simp only [decide_not, Bool.not_eq_false', decide_eq_true_eq, hhead, ne_eq, not_true_eq_false,
      false_and, or_false]
    constructor
    · exact fun h => ⟨inside, hauthority, h⟩
    · rintro ⟨inside', heq, h⟩
      rw [heq, stripPrefix_append, Option.some_inj] at hstrip
      exact hstrip ▸ h
  | none =>
    have hno : ∀ inside, authority ≠ "[" ++ inside := by
      rintro inside rfl
      rw [stripPrefix_append] at hstrip
      cases hstrip
    have hhead : authority.toList.head? ≠ some '[' := by
      intro hhead
      cases hl : authority.toList with
      | nil =>
        rw [hl] at hhead
        cases hhead
      | cons c more =>
        rw [hl, List.head?_cons, Option.some_inj] at hhead
        refine hno (.ofList more) ?_
        rw [← String.toList_inj, String.toList_append, hl, hhead]
        simp
    have hcolon : before [':'] authority ∈ ["localhost", "127.0.0.1", "::1"] ↔
        before [':'] authority ∈ ["localhost", "127.0.0.1"] :=
      before_colon_mem_iff authority ["localhost", "127.0.0.1"] (by decide)
    simp only [decide_not, Bool.not_eq_false', decide_eq_true_eq, hhead, ne_eq, not_false_eq_true,
      true_and, hno, false_and, exists_false, false_or]
    exact hcolon

/-! ## http URLs -/

section
variable {baseUrl rest : String} (hlocal : ∀ name ∈ ["localhost", "127.0.0.1"],
  ∃ h, hosts.text h = name.toList)
  (hclean : ∀ c ∈ rest.toList, isTabOrNewline c = false)

theorem http_toList (rest : String) :
    ("http://" ++ rest).toList = Scheme.http.text ++ ':' :: ("//".toList ++ rest.toList) := by
  rw [String.toList_append]
  rfl

theorem https_toList (rest : String) :
    ("https://" ++ rest).toList = Scheme.https.text ++ ':' :: ("//".toList ++ rest.toList) := by
  rw [String.toList_append]
  rfl

include hclean in
/-- The origin is the one a browser sends iff the authority is canonical. -/
theorem origin_iff (hosts : Hosts H) {scheme : Scheme} {http : HttpConfig}
    (hurl : baseUrl.toList = scheme.text ++ ':' :: ("//".toList ++ rest.toList))
    (hnew : HttpConfig.new baseUrl = .ok http)
    (horigin : http.origin.toList = scheme.text ++ "://".toList ++ (before ['/'] rest).toList) :
    (∀ http, HttpConfig.new baseUrl = .ok http → ∃ o, parseUrl hosts baseUrl.toList = some o ∧
      http.origin = .ofList (o.serialize hosts) ∧
      requireSameOrigin none (some (headerBytes (o.serialize hosts))) http.origin = .ok ()) ↔
    Canonical hosts scheme (before ['/'] rest) := by
  rw [canonical_iff hurl hclean]
  -- the serialised origin and the one of the broker differ in the authority only
  have hsame : ∀ o, parseUrl hosts baseUrl.toList = some o →
      (http.origin = .ofList (o.serialize hosts) ↔
        (before ['/'] rest).toList = o.authority hosts) := by
    intro o hparse
    have hserialize := serialize_eq hosts (parseUrl_ok hurl hclean hparse).1 []
    rw [List.append_nil, List.append_nil] at hserialize
    rw [← String.toList_inj, String.toList_ofList, horigin, ← hserialize]
    simp
  constructor
  · intro h
    obtain ⟨o, hparse, hserialize, -⟩ := h http hnew
    exact ⟨o, hparse, (hsame o hparse).1 hserialize⟩
  · rintro ⟨o, hparse, hauthority⟩ http' hnew'
    rw [hnew, Except.ok.injEq] at hnew'
    rw [← hnew', (hsame o hparse).2 hauthority]
    exact ⟨o, hparse, rfl, requireSameOrigin_serialize o⟩

/-- A name up to the first colon is no bracket. -/
theorem head?_ne_bracket {authority : String}
    (h : before [':'] authority ∈ ["localhost", "127.0.0.1"]) :
    authority.toList.head? ≠ some '[' := by
  intro hhead
  cases hl : authority.toList with
  | nil =>
    rw [hl] at hhead
    cases hhead
  | cons c more =>
    rw [hl, List.head?_cons, Option.some_inj] at hhead
    have hbefore : (before [':'] authority).toList.head? = some '[' := by
      rw [before_toList, hl, hhead, List.takeWhile_cons_of_pos (by decide)]
      rfl
    have hnames : ∀ name ∈ ["localhost", "127.0.0.1"], name.toList.head? ≠ some '[' := by decide
    exact hnames _ h hbefore

/-- In a canonical authority there is no question mark and no hash. -/
theorem before_slash_eq {scheme : Scheme} (h : Canonical hosts scheme (before ['/'] rest)) :
    before ['/', '?', '#'] rest = before ['/'] rest := by
  obtain ⟨o, -, -, hauthority⟩ := h
  obtain ⟨tail, hrest, htail⟩ := exists_before ['/'] rest
  rw [← String.toList_inj, before_toList, hrest, Trim.takeWhile_stop]
  · intro c hc
    rw [hauthority] at hc
    obtain ⟨-, -, hslash, hquery, hhash, -⟩ := isHostChar_spec (mem_authority hosts hc)
    have hne : c ≠ '/' := by
      rintro rfl
      exact absurd hslash (by decide)
    simp [hne, hquery, hhash]
  · intro c hc
    simp [List.mem_singleton.1 (htail c hc)]

include hclean in
/-- Where the broker takes the URL for loopback, all readers agree iff the
    authority is canonical. -/
theorem readAsBrowser_accepted {http : HttpConfig}
    (hnew : HttpConfig.new ("http://" ++ rest) = .ok http)
    (horigin : http.origin = "http://" ++ before ['/'] rest)
    (hhost : before [':'] (before ['/'] rest) ∈ ["localhost", "127.0.0.1"]) :
    ReadAsBrowser hosts ("http://" ++ rest) ↔ Canonical hosts .http (before ['/'] rest) := by
  have hiff := origin_iff hclean hosts (http_toList rest) hnew
    (by rw [horigin, http_toList]; simp)
  constructor
  · exact fun h => hiff.1 h.origin
  · intro h
    refine ⟨hiff.2 h, fun _ _ => iff_of_true ⟨http, hnew⟩ ?_, fun _ _ path hpath =>
      iff_of_true ⟨http, hnew⟩ ?_⟩
    · obtain ⟨o, hparse, hauthority⟩ := (canonical_iff (http_toList rest) hclean).1 h
      refine ⟨o, hparse, ?_⟩
      rw [← before_colon_authority hauthority (head?_ne_bracket hhost)]
      exact List.mem_append_left ["[::1]"] hhost
    · rw [isPlaintextOffLoopback_append rest hpath, isPlaintextOffLoopback_eq_false,
        before_slash_eq h]
      exact Or.inr ⟨head?_ne_bracket hhost, hhost⟩

include hlocal hclean in
/-- A name up to a question mark or a hash, which is not one up to the colon and
    the slash, is the host in a browser. -/
theorem namesLoopback_of_name
    (hname : before [':'] (before ['/', '?', '#'] rest) ∈ ["localhost", "127.0.0.1"])
    (hhost : before [':'] (before ['/'] rest) ∉ ["localhost", "127.0.0.1"]) :
    NamesLoopback hosts ("http://" ++ rest) := by
  obtain ⟨tail, hrest, htail⟩ := exists_before ['/', '?', '#'] rest
  -- a colon would end the name for either reader
  have hno : ':' ∉ (before ['/', '?', '#'] rest).toList := by
    intro hcolon
    have hauthority : (before ['/'] rest).toList =
        (before ['/', '?', '#'] rest).toList ++ tail.takeWhile (· ∉ ['/']) := by
      rw [before_toList ['/'], hrest, List.takeWhile_append_of_pos]
      intro c hc
      refine decide_eq_true fun hslash => ?_
      rw [List.mem_singleton.1 hslash] at hc
      exact not_mem_before (by decide) rest hc
    have hsame : before [':'] (before ['/'] rest) =
        before [':'] (before ['/', '?', '#'] rest) := by
      unfold before at hauthority hcolon ⊢
      rw [String.toList_ofList] at hcolon
      rw [hauthority, String.toList_ofList, Trim.takeWhile_append_of_mem (by simp) hcolon]
    rw [hsame] at hhost
    exact hhost hname
  have hall : before [':'] (before ['/', '?', '#'] rest) = before ['/', '?', '#'] rest := by
    rw [← String.toList_inj, before_toList, List.takeWhile_eq_self_iff]
    intro c hc
    refine decide_eq_true fun hcolon => ?_
    rw [List.mem_singleton.1 hcolon] at hc
    exact hno hc
  rw [hall] at hname
  obtain ⟨h, htext⟩ := hlocal _ hname
  have hport : (⟨.http, h, none⟩ : Origin H).PortOk := nofun
  have hscheme : (⟨.http, h, none⟩ : Origin H).scheme = .http := rfl
  refine ⟨⟨.http, h, none⟩, ?_, ?_⟩
  · have hauthority : (before ['/', '?', '#'] rest).toList =
        Origin.authority hosts ⟨.http, h, none⟩ := by
      rw [Origin.authority, htext]
      simp [portText]
    rw [http_toList, hrest, hauthority, serialize_eq hosts hscheme]
    refine parseUrl_serialize hport (fun c hc => ?_) fun c hc => hclean c ?_
    · have hends : ∀ d ∈ ['/', '?', '#'], endsAuthority d = true := by
        simp [endsAuthority, isSlash]
      exact hends c (htail c hc)
    · rw [hrest]
      exact List.mem_append_right _ hc
  · show String.ofList (hosts.text h) ∈ _
    rw [htext, String.ofList_toList]
    exact List.mem_append_left ["[::1]"] hname

include hlocal hclean in
/-- Where it does not, they agree iff no reader finds a loopback host. -/
theorem readAsBrowser_refused (hnew : ∀ http, HttpConfig.new ("http://" ++ rest) ≠ .ok http)
    (hhost : before [':'] (before ['/'] rest) ∉ ["localhost", "127.0.0.1"]) :
    ReadAsBrowser hosts ("http://" ++ rest) ↔ ¬NamesLoopback hosts ("http://" ++ rest) ∧
      ∀ inside, before ['/', '?', '#'] rest = "[" ++ inside →
        before [']'] inside ∉ ["localhost", "127.0.0.1", "::1"] := by
  have hnone : ¬∃ http, HttpConfig.new ("http://" ++ rest) = .ok http := fun ⟨http, h⟩ => hnew http h
  constructor
  · intro h
    have hloop := h.loopback rest rfl
    have hissuer := h.issuer rest rfl "" (by simp)
    rw [String.append_empty] at hissuer
    refine ⟨fun hn => hnone (hloop.2 hn), fun inside heq hin => hnone (hissuer.2 ?_)⟩
    exact isPlaintextOffLoopback_eq_false.2 (Or.inl ⟨inside, heq, hin⟩)
  · rintro ⟨hnot, hbrackets⟩
    refine ⟨fun http h => absurd h (hnew http), fun _ _ => iff_of_false hnone hnot,
      fun _ _ path hpath => iff_of_false hnone ?_⟩
    rw [isPlaintextOffLoopback_append rest hpath, isPlaintextOffLoopback_eq_false]
    rintro (⟨inside, heq, hin⟩ | ⟨-, hname⟩)
    · exact hbrackets inside heq hin
    · exact hnot (namesLoopback_of_name hlocal hclean hname hhost)

end

/-! ## Every URL -/

/-- No blank is a tab or a line break. -/
theorem isTabOrNewline_of_not_blank {c : Char} (h : isWhiteSpace c = false) :
    isTabOrNewline c = false := by
  simp only [isWhiteSpace, isTabOrNewline, Bool.or_eq_false_iff, Bool.and_eq_false_iff,
    decide_eq_false_iff_not] at h ⊢
  omega

/-- **`base_url` as a browser reads it**: of the URLs that pass the check, exactly
    those that are written plainly. -/
theorem base_url_iff (hosts : Hosts H)
    (hlocal : ∀ name ∈ ["localhost", "127.0.0.1"], ∃ h, hosts.text h = name.toList)
    (debug : String → String) (baseUrl : String)
    (hvalid : validateHttpUrl debug "base_url" baseUrl = .ok ()) :
    ReadAsBrowser hosts baseUrl ↔ WrittenPlainly hosts baseUrl := by
  obtain ⟨hblank, rest, hurl, hhost⟩ := validateHttpUrl_ok hvalid
  have hclean : ∀ c ∈ rest.toList, isTabOrNewline c = false := by
    intro c hc
    refine isTabOrNewline_of_not_blank (hblank c ?_)
    rcases hurl with rfl | rfl <;> (rw [String.toList_append]; exact List.mem_append_right _ hc)
  have hauthority : before ['/'] rest ≠ "" := mt before_colon_eq_empty hhost
  rcases hurl with rfl | rfl
  · have hnew := HttpConfig.new_https hauthority
    have horigin := origin_iff hclean hosts (https_toList rest) hnew
      (by rw [https_toList]; simp)
    have hno : ∀ rest', "https://" ++ rest ≠ "http://" ++ rest' :=
      fun rest' => (http_ne_https rest' rest).symm
    rw [writtenPlainly_https, ← horigin]
    constructor
    · exact fun h => h.origin
    · exact fun h => ⟨h, fun rest' heq => absurd heq (hno rest'), fun rest' heq => absurd heq (hno rest')⟩
  · have hnew := HttpConfig.new_http hauthority
    have hnames : before [':'] (before ['/'] rest) ∈ ["localhost", "127.0.0.1", "[::1]", "::1"] ↔
        before [':'] (before ['/'] rest) ∈ ["localhost", "127.0.0.1"] :=
      before_colon_mem_iff _ ["localhost", "127.0.0.1"] (by decide)
    by_cases hin : before [':'] (before ['/'] rest) ∈ ["localhost", "127.0.0.1"]
    · rw [if_pos (hnames.2 hin)] at hnew
      rw [readAsBrowser_accepted hclean hnew rfl hin, writtenPlainly_local hin]
    · rw [if_neg (mt hnames.1 hin)] at hnew
      have hrefused : ∀ http, HttpConfig.new ("http://" ++ rest) ≠ .ok http := by
        intro http hhttp
        rw [hnew] at hhttp
        cases hhttp
      rw [readAsBrowser_refused hlocal hclean hrefused hin, writtenPlainly_remote hin]

namespace PlainHosts

def isDomainChar (c : Char) : Bool := c.isLower || c.isDigit || c = '.' || c = '-'

/-- A domain in lower case, or the loopback address. -/
def IsHostText (text : List Char) : Prop :=
  text = "[::1]".toList ∨ text ≠ [] ∧ text.all isDomainChar = true

instance : DecidablePred IsHostText := fun _ => inferInstanceAs (Decidable (_ ∨ _))

theorem isDomainChar_spec {c : Char} (h : isDomainChar c = true) :
    c.toLower = c ∧ isHostChar c = true ∧ c ≠ ':' ∧ c ≠ '[' ∧ c ≠ ']' := by
  have hrange : 97 ≤ c.toNat ∧ c.toNat ≤ 122 ∨ 48 ≤ c.toNat ∧ c.toNat ≤ 57 ∨ c.toNat = 46 ∨
      c.toNat = 45 := by
    simp only [isDomainChar, Bool.or_eq_true, decide_eq_true_eq, Char.isDigit_iff_toNat] at h
    rcases h with ((h | h) | rfl) | rfl
    · have hlower : (decide (97 ≤ c.val) && decide (c.val ≤ 122)) = true := h
      simp only [Bool.and_eq_true, decide_eq_true_eq, UInt32.le_iff_toNat_le] at hlower
      exact Or.inl hlower
    · exact Or.inr (Or.inl h)
    · decide
    · decide
  have hne : ∀ d : Char, ¬(97 ≤ d.toNat ∧ d.toNat ≤ 122 ∨ 48 ≤ d.toNat ∧ d.toNat ≤ 57 ∨
      d.toNat = 46 ∨ d.toNat = 45) → c ≠ d := by
    rintro d hd rfl
    exact hd hrange
  refine ⟨?_, ?_, hne _ (by decide), hne _ (by decide), hne _ (by decide)⟩
  · refine dif_neg fun hupper => ?_
    have hlo := UInt32.le_iff_toNat_le.1 hupper.1
    have hhi := UInt32.le_iff_toNat_le.1 hupper.2
    have hA : 'A'.val.toNat = 65 := rfl
    have hZ : 'Z'.val.toNat = 90 := rfl
    rw [hA, Char.toNat_val] at hlo
    rw [hZ, Char.toNat_val] at hhi
    omega
  · simp only [isHostChar, isSlash, Bool.and_eq_true, decide_eq_true_eq, Bool.not_eq_true',
      Bool.or_eq_false_iff, decide_eq_false_iff_not]
    exact ⟨⟨by omega, by omega⟩, ⟨⟨⟨hne _ (by decide), hne _ (by decide)⟩, hne _ (by decide)⟩,
      hne _ (by decide)⟩, hne _ (by decide)⟩

def plain : Hosts { text // IsHostText text } where
  parse text := if h : IsHostText (text.map Char.toLower) then some ⟨_, h⟩ else none
  text h := h.1
  parse_text := by
    rintro ⟨text, htext⟩
    have hlower : text.map Char.toLower = text := by
      rcases htext with rfl | ⟨-, hall⟩
      · decide
      · rw [List.all_eq_true] at hall
        exact (List.map_congr_left fun c hc => (isDomainChar_spec (hall c hc)).1).trans
          (List.map_id' _)
    rw [dif_pos (by rw [hlower]; exact htext)]
    simp only [hlower]
  text_ne_nil := by
    rintro ⟨text, rfl | ⟨hne, -⟩⟩
    · decide
    · exact hne
  isHostChar_text := by
    rintro ⟨text, rfl | ⟨-, hall⟩⟩
    · simp [isHostChar, isSlash, backslash]
    · exact fun c hc => (isDomainChar_spec (List.all_eq_true.1 hall c hc)).2.1
  brackets := by
    rintro ⟨text, rfl | ⟨-, hall⟩⟩
    · exact Or.inr ⟨"::1".toList, by decide, by decide, by decide⟩
    · exact Or.inl fun c hc => (isDomainChar_spec (List.all_eq_true.1 hall c hc)).2.2

theorem local_hosts : ∀ name ∈ ["localhost", "127.0.0.1"], ∃ h, plain.text h = name.toList := by
  simp only [List.mem_cons, List.not_mem_nil, or_false, forall_eq_or_imp, forall_eq]
  exact ⟨⟨⟨"localhost".toList, by decide⟩, rfl⟩, ⟨⟨"127.0.0.1".toList, by decide⟩, rfl⟩⟩

end PlainHosts

theorem base_url_app : ReadAsBrowser PlainHosts.plain "https://app.example.com" := by
  refine (base_url_iff PlainHosts.plain PlainHosts.local_hosts id "https://app.example.com"
    (by decide +kernel)).2 ?_
  rw [show "https://app.example.com" = "https://" ++ "app.example.com" by decide, writtenPlainly_https]
  exact ⟨⟨.https, ⟨"app.example.com".toList, by decide⟩, none⟩, rfl, nofun, by decide +kernel⟩

/-- A browser goes to the host behind the `@`; and the loopback address in
    brackets, which the broker means to accept, it refuses. -/
theorem base_url_misread :
    (¬∀ (debug : String → String) (baseUrl : String),
      validateHttpUrl debug "base_url" baseUrl = .ok () → ReadAsBrowser PlainHosts.plain baseUrl) ∧
    HttpConfig.new "http://[::1]:8080" = .error (.insecureOffLoopback "http://[::1]:8080") ∧
    isPlaintextOffLoopback "http://[::1]:8080" = false := by
  refine ⟨fun h => ?_, by decide +kernel, by decide +kernel⟩
  have hread := h id "http://localhost:x@evil.example" (by decide +kernel)
  have hnew : HttpConfig.new "http://localhost:x@evil.example" =
      .ok ⟨"http://localhost:x@evil.example", false, "/auth/login"⟩ := by decide +kernel
  obtain ⟨o, hparse, hname⟩ := (hread.loopback "localhost:x@evil.example" (by decide)).1 ⟨_, hnew⟩
  have hhost : (parseUrl PlainHosts.plain "http://localhost:x@evil.example".toList).map
      (fun o => PlainHosts.plain.text o.host) = some "evil.example".toList := by decide +kernel
  rw [hparse, Option.map_some, Option.some_inj] at hhost
  rw [hhost] at hname
  exact absurd hname (by decide)

end SessionBroker
