/-
  The cookies of a session (`issue_cookies` and `clear_cookies` of
  `http/mod.rs`, the transaction's of `http/auth.rs`), and what becomes of them
  in a browser.

  * `Keeps`: what a browser has of the two cookies, nothing or what one answer
    issued;
  * `keeps_issue`, `keeps_clear`: an answer leaves both cookies or neither;
  * `cookie_requestCookies`: what the handlers read of a request is what the
    browser kept.
-/
import SessionBroker.BaseUrl
import SessionBroker.MetaCookie
import SessionBroker.Lib.CookieJar
import Mathlib.Data.List.Find

namespace SessionBroker

open CookieJar (Receipt Line Plain named store storeAll sent header shown)
open Js (utf16 utf16Char isSpace)

/-! ## The lines -/

/-- `HttpConfig`, with the lifetime of the cookies. -/
structure CookieConfig extends HttpConfig where
  maxAgeSecs : ℕ
deriving DecidableEq, Repr

namespace CookieConfig

/-- `HttpConfig::new`. -/
def new (baseUrl : String) (policy : SessionPolicy) : Except HttpConfigError CookieConfig :=
  (HttpConfig.new baseUrl).map fun http => { http with maxAgeSecs := policy.idleTtlSecs }

variable (config : CookieConfig)

/-- `HttpConfig::session_cookie_name`. -/
def sessionCookieName : String := SessionBroker.sessionCookieName config.secure

/-- `HttpConfig::attributes`. -/
def attributes (httpOnly : Bool) (maxAge : ℤ) : String :=
  "; Path=/; SameSite=Lax; Max-Age=" ++ toString maxAge ++ (if config.secure then "; Secure" else "") ++
    (if httpOnly then "; HttpOnly" else "")

def setCookie (name value : String) (httpOnly : Bool) (maxAge : ℤ) : String :=
  name ++ "=" ++ value ++ config.attributes httpOnly maxAge

/-- `HttpConfig::issue_cookies`. -/
def issueCookies (issued : IssuedCookies) : List String :=
  [config.setCookie config.sessionCookieName issued.token.value true (asI64 config.maxAgeSecs),
    config.setCookie "broker_meta" (encodeMeta issued.sessionMeta) false (asI64 config.maxAgeSecs)]

/-- `HttpConfig::clear_cookies`. -/
def clearCookies : List String :=
  [config.setCookie config.sessionCookieName "" true 0, config.setCookie "broker_meta" "" false 0]

/-- `txn_cookie_name`. -/
def txnCookieName : String :=
  if (stripPrefix "__Host-" config.sessionCookieName).isSome then "__Host-broker_txn" else "broker_txn"

/-- `txn_cookie`. -/
def txnCookie (value : String) (maxAge : ℤ) : String :=
  let name := config.txnCookieName
  name ++ "=" ++ value ++ "; Path=/; SameSite=Lax; Max-Age=" ++ toString maxAge ++
    (if (stripPrefix "__Host-" name).isSome then "; Secure" else "") ++ "; HttpOnly"

end CookieConfig

/-! ## The line in a browser -/

/-- A text of a cookie: printable, and none of what separates. -/
structure CookieText (text : List Char) : Prop where
  printable : ∀ c ∈ text, 32 ≤ c.toNat ∧ c.toNat < 127
  plain : Plain text

namespace CookieConfig

variable (config : CookieConfig)

/-- The parts of a line behind its pair. -/
def parts (httpOnly : Bool) (maxAge : ℕ) : List (List Char) :=
  [" Path=/".toList, " SameSite=Lax".toList, " Max-Age=".toList ++ Nat.toDigits 10 maxAge] ++
    ((if config.secure then [" Secure".toList] else []) ++ if httpOnly then [" HttpOnly".toList] else [])

theorem toList_setCookie (name value : String) (httpOnly : Bool) (maxAge : ℕ) :
    (config.setCookie name value httpOnly maxAge).toList =
      name.toList ++ '=' :: value.toList ++ (config.parts httpOnly maxAge).flatMap (';' :: ·) := by
  have hage : (toString (maxAge : ℤ)).toList = Nat.toDigits 10 maxAge := by
    rw [show toString (maxAge : ℤ) = toString maxAge from rfl, Nat.toString_eq_repr, Nat.toList_repr]
  unfold setCookie attributes parts
  simp only [String.toList_append, hage]
  cases config.secure <;> cases httpOnly <;> simp

/-- The cookie of a line. -/
def stored (name value : String) (httpOnly : Bool) (expires : ℤ) : CookieJar.Cookie where
  name := name.toList
  value := value.toList
  domain := none
  path := ['/']
  expires := some expires
  secure := config.secure
  httpOnly := httpOnly

theorem printable_setCookie {name value : String} (hname : CookieText name.toList)
    (hvalue : CookieText value.toList) (httpOnly : Bool) (maxAge : ℕ) :
    ∀ c ∈ (config.setCookie name value httpOnly maxAge).toList, 32 ≤ c.toNat ∧ c.toNat < 127 := by
  have hdigits : ∀ c ∈ Nat.toDigits 10 maxAge, 32 ≤ c.toNat ∧ c.toNat < 127 := by
    intro c hc
    have hdigit := Nat.isDigit_of_mem_toDigits (by omega) (by omega) hc
    obtain ⟨hlo, hhi⟩ := Char.isDigit_iff_toNat.1 hdigit
    exact ⟨le_trans (by decide) hlo, hhi.trans_lt (by decide)⟩
  have hparts : ∀ p ∈ config.parts httpOnly maxAge, ∀ c ∈ p, 32 ≤ c.toNat ∧ c.toNat < 127 := by
    have htexts : ∀ p ∈ [" Path=/", " SameSite=Lax", " Max-Age=", " Secure", " HttpOnly"], ∀ c ∈ p.toList,
        32 ≤ c.toNat ∧ c.toNat < 127 := by
      simp
    intro p hp c hc
    simp only [parts, List.cons_append, List.nil_append, List.mem_cons, List.mem_append] at hp
    rcases hp with rfl | rfl | rfl | hp | hp
    · exact htexts " Path=/" (by simp) c hc
    · exact htexts " SameSite=Lax" (by simp) c hc
    · exact (List.mem_append.1 hc).elim (htexts " Max-Age=" (by simp) c) (hdigits c)
    · split_ifs at hp
      · obtain rfl := List.mem_singleton.1 hp
        exact htexts " Secure" (by simp) c hc
      · cases hp
    · split_ifs at hp
      · obtain rfl := List.mem_singleton.1 hp
        exact htexts " HttpOnly" (by simp) c hc
      · cases hp
  intro c hc
  rw [config.toList_setCookie] at hc
  simp only [List.mem_append, List.mem_cons, List.mem_flatMap] at hc
  rcases hc with (hc | rfl | hc) | ⟨p, hp, rfl | hc⟩
  · exact hname.printable c hc
  · decide
  · exact hvalue.printable c hc
  · decide
  · exact hparts p hp c hc

theorem attributeOf_maxAge (maxAge : ℕ) :
    CookieJar.attributeOf (" Max-Age=".toList ++ Nat.toDigits 10 maxAge) =
      ("max-age", Nat.toDigits 10 maxAge) := by
  have hblank : ∀ c ∈ Nat.toDigits 10 maxAge, CookieJar.isBlank c = false := by
    intro c hc
    have hdigit := Nat.isDigit_of_mem_toDigits (by omega) (by omega) hc
    cases hc' : CookieJar.isBlank c with
    | false => rfl
    | true =>
      simp only [CookieJar.isBlank, Bool.or_eq_true, decide_eq_true_eq] at hc'
      rcases hc' with rfl | rfl
      · exact absurd hdigit (by decide)
      · exact absurd hdigit (by decide)
  have hname : Plain "Max-Age".toList := ⟨.of_forall (by simp [CookieJar.isBlank]), by simp⟩
  have hdigits : Plain (Nat.toDigits 10 maxAge) :=
    ⟨.of_forall hblank, fun h => absurd (Nat.isDigit_of_mem_toDigits (by omega) (by omega) h) (by decide)⟩
  have hsplit := CookieJar.halves_eq [' '] (by simp [CookieJar.isBlank]) hname (by simp) hdigits
  have htext : " Max-Age=".toList ++ Nat.toDigits 10 maxAge =
      [' '] ++ "Max-Age".toList ++ '=' :: Nat.toDigits 10 maxAge := rfl
  rw [htext, CookieJar.attributeOf, hsplit]
  rfl

/-- **What a browser makes of a line.** -/
theorem cookie_setCookie {name value : String} (hname : CookieText name.toList) (hequals : '=' ∉ name.toList)
    (hne : name.toList ≠ []) (hvalue : CookieText value.toList) (httpOnly : Bool) (maxAge : ℕ) (r : Receipt) :
    ∃ l, CookieJar.parse (config.setCookie name value httpOnly maxAge).toList = some l ∧
      l.cookie r = config.stored name value httpOnly (r.now + min (maxAge : ℤ) r.longest) := by
  have hdigits : ';' ∉ Nat.toDigits 10 maxAge := by
    intro h
    exact absurd (Nat.isDigit_of_mem_toDigits (by omega) (by omega) h) (by decide)
  have hparts : ∀ p ∈ config.parts httpOnly maxAge, ';' ∉ p := by
    unfold parts
    cases config.secure <;> cases httpOnly <;> simp [hdigits]
  refine ⟨⟨name.toList, value.toList, (config.parts httpOnly maxAge).map CookieJar.attributeOf⟩, ?_, ?_⟩
  · rw [config.toList_setCookie]
    exact CookieJar.parse_line hname.plain hequals hne hvalue.plain hparts
  · have hattributes : (config.parts httpOnly maxAge).map CookieJar.attributeOf =
        [("path", ['/']), ("samesite", "Lax".toList), ("max-age", Nat.toDigits 10 maxAge)] ++
          ((if config.secure then [("secure", [])] else []) ++ if httpOnly then [("httponly", [])] else []) := by
      rw [parts, List.map_append, List.map_cons, List.map_cons, List.map_cons, attributeOf_maxAge]
      cases config.secure <;> cases httpOnly <;> rfl
    rw [hattributes]
    have hpath : (Option.filter (fun path => decide (List.head? path = some '/')) (some ['/'])).getD r.path = ['/'] :=
      rfl
    cases hsecure : config.secure <;> cases httpOnly <;>
      simp [stored, hsecure, Line.cookie, Line.last, Line.has, Line.maxAge, CookieJar.age_digits, hpath]

/-- The names that the broker sets. -/
def Names (name : String) : Prop := name = config.sessionCookieName ∨ name = "broker_meta" ∨ name = config.txnCookieName

section
variable {config : CookieConfig} {name value : String}

theorem txnCookieName_eq :
    config.txnCookieName = if config.secure then "__Host-broker_txn" else "broker_txn" := by
  have hhost : (stripPrefix "__Host-" "__Host-broker_session").isSome = true := by decide +kernel
  have hdev : (stripPrefix "__Host-" "broker_session").isSome = false := by decide +kernel
  unfold txnCookieName CookieConfig.sessionCookieName SessionBroker.sessionCookieName
  cases config.secure with
  | false => simp [hdev]
  | true => simp [hhost]

/-- The transaction's cookie looks like the session's. -/
theorem txnCookie_eq (value : String) (maxAge : ℤ) :
    config.txnCookie value maxAge = config.setCookie config.txnCookieName value true maxAge := by
  have hhost : (stripPrefix "__Host-" "__Host-broker_txn").isSome = true := by decide +kernel
  have hdev : (stripPrefix "__Host-" "broker_txn").isSome = false := by decide +kernel
  unfold txnCookie setCookie attributes
  simp only [txnCookieName_eq]
  cases config.secure with
  | false => simp [hdev, String.append_assoc]
  | true => simp [hhost, String.append_assoc]

theorem Names.cases (h : config.Names name) : (config.secure = true ∧ name = "__Host-broker_session") ∨
    (config.secure = false ∧ name = "broker_session") ∨ name = "broker_meta" ∨
    (config.secure = true ∧ name = "__Host-broker_txn") ∨ (config.secure = false ∧ name = "broker_txn") := by
  unfold Names at h
  rw [txnCookieName_eq, CookieConfig.sessionCookieName, SessionBroker.sessionCookieName] at h
  cases hsecure : config.secure <;> simp only [hsecure] at h ⊢ <;> tauto

theorem Names.text (h : config.Names name) :
    CookieText name.toList ∧ '=' ∉ name.toList ∧ name.toList ≠ [] := by
  have htext : ∀ name ∈ ["__Host-broker_session", "broker_session", "broker_meta", "__Host-broker_txn", "broker_txn"],
      (∀ c ∈ name.toList, (32 ≤ c.toNat ∧ c.toNat < 127) ∧ CookieJar.isBlank c = false ∧ c ≠ ';' ∧ c ≠ '=') ∧
        name.toList ≠ [] := by
    simp [CookieJar.isBlank]
  have hmem : name ∈ ["__Host-broker_session", "broker_session", "broker_meta", "__Host-broker_txn", "broker_txn"] := by
    rcases h.cases with ⟨-, rfl⟩ | ⟨-, rfl⟩ | rfl | ⟨-, rfl⟩ | ⟨-, rfl⟩ <;> simp
  obtain ⟨hchars, hne⟩ := htext name hmem
  exact ⟨⟨fun c hc => (hchars c hc).1, .of_forall fun c hc => (hchars c hc).2.1, fun hc => (hchars _ hc).2.2.1 rfl⟩,
    fun hc => (hchars _ hc).2.2.2 rfl, hne⟩

/-- A browser takes them. -/
theorem Names.accepted (h : config.Names name) (value : String) (httpOnly : Bool) (expires : ℤ) :
    (config.stored name value httpOnly expires).Accepted config.secure := by
  have hsecure : ∀ name ∈ ["__Host-broker_session", "broker_session", "broker_meta", "__Host-broker_txn", "broker_txn"],
      ¬ "__secure-".toList <+: name.toList.map Char.toLower := by
    decide +kernel
  have hhost : ∀ name ∈ ["broker_session", "broker_meta", "broker_txn"],
      ¬ "__host-".toList <+: name.toList.map Char.toLower := by
    decide +kernel
  refine ⟨id, fun hprefix => ?_, fun hprefix => ?_⟩
  · refine absurd hprefix (hsecure name ?_)
    rcases h.cases with ⟨-, rfl⟩ | ⟨-, rfl⟩ | rfl | ⟨-, rfl⟩ | ⟨-, rfl⟩ <;> simp
  · refine ⟨?_, rfl, rfl⟩
    rcases h.cases with ⟨hon, -⟩ | ⟨-, rfl⟩ | rfl | ⟨hon, -⟩ | ⟨-, rfl⟩
    · exact hon
    · exact absurd hprefix (hhost _ (by simp))
    · exact absurd hprefix (hhost _ (by simp))
    · exact hon
    · exact absurd hprefix (hhost _ (by simp))

/-- **A line sets its cookie**, or takes it away. -/
theorem named_setCookie {jar : List CookieJar.Cookie} {r : Receipt} (hname : config.Names name)
    (hvalue : CookieText value.toList) (hr : r.https = config.secure)
    (hplace : ∀ d ∈ named name.toList jar, d.domain = none ∧ d.path = ['/'])
    (hone : (named name.toList jar).length ≤ 1) (httpOnly : Bool) (maxAge : ℕ) :
    named name.toList (store r jar (config.setCookie name value httpOnly maxAge).toList) =
      if 0 < min maxAge r.longest then
        [config.stored name value httpOnly (r.now + min (maxAge : ℤ) r.longest)] else [] := by
  obtain ⟨htext, hequals, hne⟩ := hname.text
  obtain ⟨l, hparse, hcookie⟩ := config.cookie_setCookie htext hequals hne hvalue httpOnly maxAge r
  have hlname : l.name = name.toList := congrArg CookieJar.Cookie.name hcookie
  have hstored := @CookieJar.named_store r jar _ l hparse (by rw [hcookie, hr]; exact hname.accepted ..)
    (by
      rw [hlname, hcookie]
      intro d hd
      obtain ⟨hdomain, hpath⟩ := hplace d hd
      exact ⟨(CookieJar.mem_named.1 hd).2.symm, hdomain.symm, hpath.symm⟩)
    (by rwa [hlname])
  rw [hlname, hcookie] at hstored
  rw [hstored]
  refine if_congr ?_ rfl rfl
  simp only [stored, CookieJar.Cookie.live, Option.all_some, decide_eq_true_eq]
  omega

/-- The other cookies stay. -/
theorem named_setCookie_of_ne {jar : List CookieJar.Cookie} {r : Receipt} {other : List Char}
    (hname : config.Names name) (hvalue : CookieText value.toList) (hne : name.toList ≠ other) (httpOnly : Bool)
    (maxAge : ℕ) :
    named other (store r jar (config.setCookie name value httpOnly maxAge).toList) = named other jar := by
  obtain ⟨htext, hequals, hnil⟩ := hname.text
  obtain ⟨l, hparse, hcookie⟩ := config.cookie_setCookie htext hequals hnil hvalue httpOnly maxAge r
  refine CookieJar.named_store_of_ne fun l' hl' => ?_
  rw [hparse] at hl'
  obtain rfl := Option.some.inj hl'
  rwa [show l.name = name.toList from congrArg CookieJar.Cookie.name hcookie]

end

/-! ## Both cookies or neither -/

/-- What a browser has of the two cookies: nothing, or what one answer issued,
    until they expire. -/
def Keeps (jar : List CookieJar.Cookie) : Option (IssuedCookies × ℤ) → Prop
  | none => named config.sessionCookieName.toList jar = [] ∧ named "broker_meta".toList jar = []
  | some (issued, expires) =>
    named config.sessionCookieName.toList jar =
        [config.stored config.sessionCookieName issued.token.value true expires] ∧
      named "broker_meta".toList jar = [config.stored "broker_meta" (encodeMeta issued.sessionMeta) false expires]

section
variable {config : CookieConfig} {jar : List CookieJar.Cookie} {r : Receipt} {kept : Option (IssuedCookies × ℤ)}

theorem sessionCookieName_ne_meta : config.sessionCookieName.toList ≠ "broker_meta".toList := by
  unfold CookieConfig.sessionCookieName SessionBroker.sessionCookieName
  cases config.secure <;> decide +kernel

theorem txnCookieName_ne : config.txnCookieName.toList ≠ config.sessionCookieName.toList ∧
    config.txnCookieName.toList ≠ "broker_meta".toList := by
  rw [txnCookieName_eq]
  unfold CookieConfig.sessionCookieName SessionBroker.sessionCookieName
  cases config.secure <;> decide +kernel

/-- The one place at which the browser has them. -/
theorem Keeps.placed (h : config.Keeps jar kept) {name : String}
    (hname : name = config.sessionCookieName ∨ name = "broker_meta") :
    (∀ d ∈ named name.toList jar, d.domain = none ∧ d.path = ['/']) ∧ (named name.toList jar).length ≤ 1 := by
  have hplaced : named name.toList jar = [] ∨
      ∃ value httpOnly expires, named name.toList jar = [config.stored name value httpOnly expires] := by
    cases kept with
    | none => exact Or.inl (hname.elim (fun hname => hname ▸ h.1) fun hname => hname ▸ h.2)
    | some kept =>
      rcases hname with rfl | rfl
      · exact Or.inr ⟨_, _, _, h.1⟩
      · exact Or.inr ⟨_, _, _, h.2⟩
  rcases hplaced with hnil | ⟨value, httpOnly, expires, hone⟩
  · simp [hnil]
  · simp [hone, stored]

/-- One answer's two cookies. -/
theorem Keeps.set (h : config.Keeps jar kept) {token encoded : String} (htoken : CookieText token.toList)
    (hencoded : CookieText encoded.toList) (hr : r.https = config.secure) (maxAge : ℕ) :
    let jar' := storeAll r jar ([config.setCookie config.sessionCookieName token true maxAge,
      config.setCookie "broker_meta" encoded false maxAge].map String.toList)
    named config.sessionCookieName.toList jar' = (if 0 < min maxAge r.longest then
        [config.stored config.sessionCookieName token true (r.now + min (maxAge : ℤ) r.longest)] else []) ∧
      named "broker_meta".toList jar' = if 0 < min maxAge r.longest then
        [config.stored "broker_meta" encoded false (r.now + min (maxAge : ℤ) r.longest)] else [] := by
  intro jar'
  have hsession : config.Names config.sessionCookieName := Or.inl rfl
  have hmeta : config.Names "broker_meta" := Or.inr (Or.inl rfl)
  obtain ⟨hplace, hone⟩ := h.placed (Or.inl rfl)
  obtain ⟨hplace', hone'⟩ := h.placed (Or.inr rfl)
  constructor
  · refine (named_setCookie_of_ne hmeta hencoded sessionCookieName_ne_meta.symm false maxAge).trans ?_
    exact named_setCookie hsession htoken hr hplace hone true maxAge
  · have hother := @named_setCookie_of_ne config _ _ jar r _ hsession htoken sessionCookieName_ne_meta true maxAge
    refine named_setCookie hmeta hencoded hr ?_ ?_ false maxAge
    · rwa [hother]
    · rwa [hother]

theorem cookieText_encode (bytes : Bytes) : CookieText (Base64.encode bytes) := by
  have hdigit : ∀ i : Fin 64, (32 ≤ (Base64.digit i).toNat ∧ (Base64.digit i).toNat < 127) ∧
      CookieJar.isBlank (Base64.digit i) = false ∧ Base64.digit i ≠ ';' := by
    decide
  have hall : ∀ c ∈ Base64.encode bytes, (32 ≤ c.toNat ∧ c.toNat < 127) ∧ CookieJar.isBlank c = false ∧ c ≠ ';' := by
    intro c hc
    obtain ⟨n, hn, rfl⟩ := Base64.mem_encode hc
    exact hdigit ⟨n, hn⟩
  exact ⟨fun c hc => (hall c hc).1, .of_forall fun c hc => (hall c hc).2.1, fun hc => (hall _ hc).2.2 rfl⟩

theorem cookieText_encodeMeta (m : SessionMeta) : CookieText (encodeMeta m).toList := by
  rw [encodeMeta, String.toList_ofList]
  exact cookieText_encode _

/-- **An answer that issues** leaves what it issued. -/
theorem keeps_issue (h : config.Keeps jar kept) {issued : IssuedCookies}
    (htoken : CookieText issued.token.value.toList) (hr : r.https = config.secure)
    (hsmall : config.maxAgeSecs < 2 ^ 63) :
    config.Keeps (storeAll r jar ((config.issueCookies issued).map String.toList))
      (if 0 < min config.maxAgeSecs r.longest then
        some (issued, r.now + min (config.maxAgeSecs : ℤ) r.longest) else none) := by
  have hset := h.set htoken (cookieText_encodeMeta issued.sessionMeta) hr config.maxAgeSecs
  dsimp only at hset
  unfold issueCookies
  rw [asI64_of_lt hsmall]
  split_ifs with hpos <;> simp only [hpos, if_true, if_false] at hset <;> exact hset

/-- **An answer that clears** leaves nothing. -/
theorem keeps_clear (h : config.Keeps jar kept) (hr : r.https = config.secure) :
    config.Keeps (storeAll r jar (config.clearCookies.map String.toList)) none := by
  have hempty : CookieText "".toList := ⟨by simp, .of_forall (by simp), by simp⟩
  have hset := h.set hempty hempty hr 0
  dsimp only at hset
  have hzero : ¬ 0 < min 0 r.longest := by simp
  rw [if_neg hzero, if_neg hzero] at hset
  exact hset

/-- A line with another name. -/
theorem Keeps.store (h : config.Keeps jar kept) {line : List Char}
    (hline : ∀ l, CookieJar.parse line = some l →
      l.name ≠ config.sessionCookieName.toList ∧ l.name ≠ "broker_meta".toList) :
    config.Keeps (CookieJar.store r jar line) kept := by
  have hsession := @CookieJar.named_store_of_ne r jar line _ fun l hl => (hline l hl).1
  have hmeta := @CookieJar.named_store_of_ne r jar line _ fun l hl => (hline l hl).2
  unfold Keeps
  rw [hsession, hmeta]
  exact h

/-- The transaction's cookie among them. -/
theorem Keeps.txnCookie (h : config.Keeps jar kept) {value : String} (hvalue : CookieText value.toList) (maxAge : ℕ) :
    config.Keeps (CookieJar.store r jar (config.txnCookie value maxAge).toList) kept := by
  have hname : config.Names config.txnCookieName := Or.inr (Or.inr rfl)
  obtain ⟨htext, hequals, hnil⟩ := hname.text
  obtain ⟨l, hparse, hcookie⟩ := config.cookie_setCookie htext hequals hnil hvalue true maxAge r
  rw [txnCookie_eq]
  refine h.store fun l' hl' => ?_
  rw [hparse] at hl'
  obtain rfl := Option.some.inj hl'
  rw [show l.name = config.txnCookieName.toList from congrArg CookieJar.Cookie.name hcookie]
  exact txnCookieName_ne

end

end CookieConfig

/-! ## What is sent back -/

/-- The values of the `Cookie` headers of a request: one, or none. -/
def requestCookies (https : Bool) (now : ℤ) (path : List Char) (jar : List CookieJar.Cookie) : List Bytes :=
  if sent https now path jar = [] then [] else [headerBytes (header (sent https now path jar))]

/-- Cookies whose texts can be sent. -/
def Tidy (jar : List CookieJar.Cookie) : Prop :=
  ∀ c ∈ jar, CookieText c.name ∧ '=' ∉ c.name ∧ CookieText c.value

theorem Tidy.store {jar : List CookieJar.Cookie} (h : Tidy jar) {line : List Char}
    (hline : ∀ c ∈ line, 32 ≤ c.toNat ∧ c.toNat < 127) (r : Receipt) : Tidy (CookieJar.store r jar line) := by
  intro c hc
  rcases CookieJar.mem_store hc with hc | ⟨l, hparse, rfl⟩
  · exact h c hc
  · obtain ⟨hname, hequals, hvalue, hchars⟩ := CookieJar.plain_of_parse hparse
    exact ⟨⟨fun c hc => hline c (hchars c (List.mem_append_left _ hc)), hname⟩, hequals,
      ⟨fun c hc => hline c (hchars c (List.mem_append_right _ hc)), hvalue⟩⟩

theorem Tidy.storeAll {jar : List CookieJar.Cookie} (h : Tidy jar) {lines : List (List Char)}
    (hlines : ∀ line ∈ lines, ∀ c ∈ line, 32 ≤ c.toNat ∧ c.toNat < 127) (r : Receipt) :
    Tidy (CookieJar.storeAll r jar lines) := by
  induction lines generalizing jar with
  | nil => exact h
  | cons line lines ih =>
    exact ih (h.store (hlines line (by simp)) r) fun line' hline' => hlines line' (List.mem_cons_of_mem _ hline')

theorem isWhiteSpace_of_printable {c : Char} (h : 32 ≤ c.toNat ∧ c.toNat < 127) (hblank : CookieJar.isBlank c = false) :
    isWhiteSpace c = false := by
  have hspace : c.toNat ≠ 32 := by
    intro hc
    rw [CookieJar.isBlank, Bool.or_eq_false_iff, decide_eq_false_iff_not] at hblank
    exact hblank.1 (Char.toNat_inj.1 hc)
  unfold isWhiteSpace
  simp
  omega

/-- One blank in front goes. -/
theorem trim_cookieText (lead : List Char) {text : List Char} (hlead : ∀ c ∈ lead, c = ' ') (h : CookieText text) :
    trim (.ofList (lead ++ text)) = .ofList text := by
  have htrimmed : Trim.Trimmed isWhiteSpace text :=
    ⟨fun c hc => isWhiteSpace_of_printable (h.printable c (List.mem_of_mem_head? hc)) (h.plain.trimmed.1 c hc),
      fun c hc => isWhiteSpace_of_printable (h.printable c (List.mem_of_mem_getLast? hc)) (h.plain.trimmed.2 c hc)⟩
  have hblank : ∀ c ∈ lead, isWhiteSpace c = true := by
    intro c hc
    rw [hlead c hc]
    decide
  have hbetween := Trim.trim_between (b := []) hblank htrimmed (by simp)
  rw [List.append_nil] at hbetween
  rw [trim, String.toList_ofList]
  exact congrArg String.ofList hbetween

/-- A cookie of a header. -/
theorem splitOnce_pair (lead : List Char) (hlead : ∀ c ∈ lead, c = ' ') {c : CookieJar.Cookie} (h : '=' ∉ c.name) :
    splitOnce '=' (.ofList (lead ++ c.pair)) = some (.ofList (lead ++ c.name), .ofList c.value) := by
  rw [splitOnce_eq_some]
  simp only [String.toList_ofList, CookieJar.Cookie.pair, List.append_assoc, true_and, List.mem_append, not_or]
  refine ⟨fun hc => ?_, h⟩
  exact absurd (hlead _ hc) (by decide)

theorem printable_header {cookies : List CookieJar.Cookie} (h : Tidy cookies) :
    ∀ c ∈ header cookies, 32 ≤ c.toNat ∧ c.toNat < 127 := by
  have hpair : ∀ d ∈ cookies, ∀ c ∈ d.pair, 32 ≤ c.toNat ∧ c.toNat < 127 := by
    intro d hd c hc
    obtain ⟨hname, -, hvalue⟩ := h d hd
    rcases List.mem_append.1 hc with hc | hc
    · exact hname.printable c hc
    · rcases List.mem_cons.1 hc with rfl | hc
      · decide
      · exact hvalue.printable c hc
  cases cookies with
  | nil => exact nofun
  | cons d cookies =>
    intro c hc
    rw [CookieJar.header_cons] at hc
    simp only [List.mem_append, List.mem_flatMap, List.mem_map, exists_exists_and_eq_and, List.mem_cons] at hc
    rcases hc with hc | ⟨d', hd', rfl | rfl | hc⟩
    · exact hpair d (by simp) c hc
    · decide
    · decide
    · exact hpair d' (by simp [hd']) c hc

/-- **What the handlers read** is what the browser sends: its first cookie of the
    name. -/
theorem cookie_requestCookies {jar : List CookieJar.Cookie} (h : Tidy jar) (https : Bool) (now : ℤ)
    (path : List Char) (name : String) : cookie (requestCookies https now path jar) name =
      ((sent https now path jar).find? fun c => c.name = name.toList).map fun c => .ofList c.value := by
  have htidy : Tidy (sent https now path jar) := fun c hc => h c (CookieJar.mem_sent.1 hc).1
  unfold requestCookies
  generalize sent https now path jar = cookies at htidy ⊢
  cases cookies with
  | nil => simp [cookie]
  | cons c cookies =>
    have hpairs : ∀ d ∈ c :: cookies, ';' ∉ d.pair := by
      intro d hd
      obtain ⟨hname, -, hvalue⟩ := htidy d hd
      simp [CookieJar.Cookie.pair, hname.plain.semicolon, hvalue.plain.semicolon]
    rw [if_neg (by simp), cookie, List.filterMap_cons, headerText_headerBytes (printable_header htidy)]
    dsimp only
    rw [List.filterMap_nil, List.flatMap_cons, List.flatMap_nil, List.append_nil, split, String.toList_ofList,
      CookieJar.splitOn_header hpairs]
    have hread : ((c.pair :: cookies.map fun d => ' ' :: d.pair).map String.ofList).filterMap (splitOnce '=') =
        (String.ofList c.name, String.ofList c.value) ::
          cookies.map fun d => (String.ofList (' ' :: d.name), String.ofList d.value) := by
      have hfirst := splitOnce_pair [] (by simp) (htidy c (by simp)).2.1
      rw [List.nil_append, List.nil_append] at hfirst
      rw [List.map_cons, List.filterMap_cons_some hfirst, List.map_map, List.filterMap_map]
      congr 1
      rw [← List.filterMap_eq_map]
      refine List.filterMap_congr fun d hd => ?_
      exact splitOnce_pair [' '] (by simp) (htidy d (by simp [hd])).2.1
    have hkey : ∀ lead : List Char, (∀ c ∈ lead, c = ' ') → ∀ d ∈ c :: cookies,
        (trim (String.ofList (lead ++ d.name)) = name ↔ d.name = name.toList) := by
      intro lead hlead d hd
      rw [trim_cookieText lead hlead (htidy d hd).1, ← String.toList_inj, String.toList_ofList]
    have hvalue : ∀ d ∈ c :: cookies, trim (String.ofList d.value) = String.ofList d.value :=
      fun d hd => trim_cookieText [] (by simp) (htidy d hd).2.2
    have hrest : (cookies.map fun d => (String.ofList (' ' :: d.name), String.ofList d.value)).find?
        (fun pair => trim pair.1 = name) =
          (cookies.find? fun d => d.name = name.toList).map
            fun d => (String.ofList (' ' :: d.name), String.ofList d.value) := by
      rw [List.find?_map]
      congr 1
      refine List.find?_congr fun d hd => ?_
      exact decide_eq_decide.2 (hkey [' '] (by simp) d (by simp [hd]))
    rw [hread]
    have hfirst := hkey [] (by simp) c (by simp)
    by_cases hname : c.name = name.toList
    · have hyes : trim (String.ofList c.name) = name := hfirst.2 hname
      rw [List.find?_cons_of_pos (by simpa using hyes), List.find?_cons_of_pos (by simpa using hname)]
      exact congrArg some (hvalue c (by simp))
    · have hno : ¬ trim (String.ofList c.name) = name := fun h => hname (hfirst.1 h)
      rw [List.find?_cons_of_neg (by simpa using hno), List.find?_cons_of_neg (by simpa using hname), hrest,
        Option.map_map]
      cases hfound : cookies.find? fun d => d.name = name.toList with
      | none => rfl
      | some d =>
        exact congrArg some (hvalue d (List.mem_cons_of_mem _ (List.mem_of_find?_eq_some hfound)))

/-! ## What scripts see -/

/-- The code unit of a printable character. -/
def codeUnit (c : Char) : UInt16 := .ofNat c.toNat

section
variable {c d : Char} {text : List Char}

theorem toNat_codeUnit (h : 32 ≤ c.toNat ∧ c.toNat < 127) : (codeUnit c).toNat = c.toNat := by
  rw [codeUnit, UInt16.toNat_ofNat', Nat.mod_eq_of_lt (by omega)]

theorem codeUnit_inj (hc : 32 ≤ c.toNat ∧ c.toNat < 127) (hd : 32 ≤ d.toNat ∧ d.toNat < 127) :
    codeUnit c = codeUnit d ↔ c = d := by
  rw [← UInt16.toNat_inj, toNat_codeUnit hc, toNat_codeUnit hd, Char.toNat_inj]

theorem map_codeUnit_inj {text' : List Char} (h : ∀ c ∈ text, 32 ≤ c.toNat ∧ c.toNat < 127)
    (h' : ∀ c ∈ text', 32 ≤ c.toNat ∧ c.toNat < 127) : text.map codeUnit = text'.map codeUnit ↔ text = text' := by
  induction text generalizing text' with
  | nil => simp [eq_comm]
  | cons c text ih =>
    cases text' with
    | nil => simp
    | cons d text' =>
      rw [List.map_cons, List.map_cons, List.cons.injEq, List.cons.injEq, codeUnit_inj (h c (by simp)) (h' d (by simp)),
        ih (fun x hx => h x (by simp [hx])) fun x hx => h' x (by simp [hx])]

theorem utf16_printable (h : ∀ c ∈ text, 32 ≤ c.toNat ∧ c.toNat < 127) :
    utf16 (.ofList text) = text.map codeUnit := by
  rw [utf16, String.toList_ofList, ← List.flatMap_singleton' (text.map codeUnit), List.flatMap_map]
  refine List.flatMap_congr fun c hc => ?_
  have hlt := (h c hc).2
  rw [utf16Char, if_pos (by omega), codeUnit]

theorem isSpace_codeUnit (h : 32 ≤ c.toNat ∧ c.toNat < 127) (hblank : CookieJar.isBlank c = false) :
    isSpace (codeUnit c) = false := by
  have hspace : c.toNat ≠ 32 := by
    intro hc
    rw [CookieJar.isBlank, Bool.or_eq_false_iff, decide_eq_false_iff_not] at hblank
    exact hblank.1 (Char.toNat_inj.1 hc)
  unfold isSpace
  rw [toNat_codeUnit h]
  simp
  omega

theorem CookieText.codeUnits (h : CookieText text) : Trim.Trimmed isSpace (text.map codeUnit) := by
  constructor
  · intro u hu
    rw [List.head?_map, Option.map_eq_some_iff] at hu
    obtain ⟨c, hc, rfl⟩ := hu
    exact isSpace_codeUnit (h.printable c (List.mem_of_mem_head? hc)) (h.plain.trimmed.1 c hc)
  · intro u hu
    rw [List.getLast?_map, Option.map_eq_some_iff] at hu
    obtain ⟨c, hc, rfl⟩ := hu
    exact isSpace_codeUnit (h.printable c (List.mem_of_mem_getLast? hc)) (h.plain.trimmed.2 c hc)

theorem codeUnit_not_mem (h : ∀ c ∈ text, 32 ≤ c.toNat ∧ c.toNat < 127) (hd : 32 ≤ d.toNat ∧ d.toNat < 127)
    (hmem : d ∉ text) : codeUnit d ∉ text.map codeUnit := by
  intro hu
  obtain ⟨c, hc, heq⟩ := List.mem_map.1 hu
  exact hmem ((codeUnit_inj (h c hc) hd).1 heq ▸ hc)

end

/-- A cookie of the string that scripts have. -/
theorem pairValue_pair {lead : Js.Units} (hlead : ∀ u ∈ lead, u = 32) {c : CookieJar.Cookie} (hname : CookieText c.name)
    (hequals : '=' ∉ c.name) (hvalue : CookieText c.value) {name : String}
    (hprintable : ∀ c ∈ name.toList, 32 ≤ c.toNat ∧ c.toNat < 127) :
    pairValue (utf16 name) (lead ++ c.pair.map codeUnit) =
      if c.name = name.toList then some (c.value.map codeUnit) else none := by
  have hspaces : ∀ u ∈ lead, isSpace u = true := by
    intro u hu
    rw [hlead u hu]
    decide
  have hpair : lead ++ c.pair.map codeUnit = lead ++ c.name.map codeUnit ++ 61 :: c.value.map codeUnit := by
    rw [CookieJar.Cookie.pair, List.map_append, List.map_cons, List.append_assoc]
    rfl
  have hstop : ∀ u ∈ lead ++ c.name.map codeUnit, decide (u ≠ 61) = true := by
    intro u hu
    refine decide_eq_true ?_
    rintro rfl
    rcases List.mem_append.1 hu with hu | hu
    · exact absurd (hlead _ hu) (by decide)
    · exact codeUnit_not_mem hname.printable (d := '=') (by decide) hequals hu
  have hhead : ∀ u, ((61 : UInt16) :: c.value.map codeUnit).head? = some u → decide (u ≠ 61) = false := by
    intro u hu
    obtain rfl := Option.some.inj hu
    rfl
  have hkey : Js.trim (lead ++ c.name.map codeUnit) = c.name.map codeUnit := by
    have hbetween := Trim.trim_between (b := []) hspaces hname.codeUnits (by simp)
    rwa [List.append_nil] at hbetween
  have hrest : Js.trim (c.value.map codeUnit) = c.value.map codeUnit := by
    have hbetween := Trim.trim_between (a := []) (b := []) (by simp) hvalue.codeUnits (by simp)
    rwa [List.append_nil] at hbetween
  have hsame : c.name.map codeUnit = utf16 name ↔ c.name = name.toList := by
    rw [← String.ofList_toList (s := name), utf16_printable hprintable, String.ofList_toList]
    exact map_codeUnit_inj hname.printable hprintable
  rw [hpair, pairValue, if_pos (by simp), Trim.takeWhile_stop hstop hhead, Trim.dropWhile_stop hstop hhead,
    List.tail_cons, hkey, hrest]
  exact if_congr hsame rfl rfl

/-- **What the client reads** is what the browser shows it. -/
theorem extractCookieValue_header {cookies : List CookieJar.Cookie} (h : Tidy cookies) {name : String}
    (hprintable : ∀ c ∈ name.toList, 32 ≤ c.toNat ∧ c.toNat < 127) :
    extractCookieValue (utf16 (.ofList (header cookies))) (utf16 name) =
      (cookies.find? fun c => c.name = name.toList).map fun c => c.value.map codeUnit := by
  have hvalue : ∀ (cookies : List CookieJar.Cookie) (lead : Js.Units), (∀ u ∈ lead, u = 32) → Tidy cookies →
      (cookies.map fun d => lead ++ d.pair.map codeUnit).findSome? (pairValue (utf16 name)) =
        (cookies.find? fun c => c.name = name.toList).map fun c => c.value.map codeUnit := by
    intro cookies lead hlead htidy
    induction cookies with
    | nil => rfl
    | cons c cookies ih =>
      obtain ⟨hname, hequals, hval⟩ := htidy c (by simp)
      rw [List.map_cons, List.findSome?_cons, pairValue_pair hlead hname hequals hval hprintable,
        ih fun d hd => htidy d (List.mem_cons_of_mem _ hd), List.find?_cons]
      by_cases hsame : c.name = name.toList
      · simp [hsame]
      · simp [hsame]
  cases cookies with
  | nil =>
    have hempty : utf16 (.ofList (header [])) = [] := rfl
    rw [extractCookieValue, hempty]
    rfl
  | cons c cookies =>
    have hsemicolon : ∀ d ∈ c :: cookies, (59 : UInt16) ∉ d.pair.map codeUnit := by
      intro d hd
      obtain ⟨hname, -, hval⟩ := h d hd
      refine codeUnit_not_mem (d := ';') ?_ (by decide) ?_
      · intro x hx
        rcases List.mem_append.1 hx with hx | hx
        · exact hname.printable x hx
        · rcases List.mem_cons.1 hx with rfl | hx
          · decide
          · exact hval.printable x hx
      · simp [CookieJar.Cookie.pair, hname.plain.semicolon, hval.plain.semicolon]
    have hunits : (header (c :: cookies)).map codeUnit = c.pair.map codeUnit ++
        (cookies.map fun d => [32] ++ d.pair.map codeUnit).flatMap ((59 : UInt16) :: ·) := by
      rw [CookieJar.header_cons, List.map_append, List.map_flatMap, List.flatMap_map, List.flatMap_map]
      rfl
    rw [utf16_printable (printable_header h), hunits, extractCookieValue,
      CookieJar.splitOn_parts (hsemicolon c (by simp)) fun p hp => ?_]
    · have hfirst := hvalue [c] [] (by simp) fun d hd => h d (by simp [List.mem_singleton.1 hd])
      have hlater := hvalue cookies [32] (by simp) fun d hd => h d (List.mem_cons_of_mem _ hd)
      rw [← List.singleton_append, List.findSome?_append, hlater, ← List.singleton_append (l := cookies),
        List.find?_append, Option.map_or, ← hfirst]
      rfl
    · obtain ⟨d, hd, rfl⟩ := List.mem_map.1 hp
      simpa using hsemicolon d (List.mem_cons_of_mem _ hd)

/-! ## Both sides of one answer -/

namespace CookieConfig

section
variable {config : CookieConfig} {jar : List CookieJar.Cookie} {kept : Option (IssuedCookies × ℤ)}

theorem stored_mem_sent {name value : String} {httpOnly : Bool} {expires : ℤ}
    (h : named name.toList jar = [config.stored name value httpOnly expires]) (now : ℤ) (rest : List Char) :
    config.stored name value httpOnly expires ∈ sent config.secure now ('/' :: rest) jar ↔ now < expires := by
  have hmem : config.stored name value httpOnly expires ∈ jar := (CookieJar.mem_named.1 (h ▸ List.mem_singleton_self _)).1
  rw [CookieJar.mem_sent, and_iff_right hmem]
  simp [stored, CookieJar.Cookie.live, CookieJar.pathMatches_root]

theorem mem_of_mem_sent {https : Bool} {now : ℤ} {path : List Char} :
    ∀ d ∈ sent https now path jar, d ∈ jar := fun _ hd => (CookieJar.mem_sent.1 hd).1

theorem mem_of_mem_shown {https : Bool} {now : ℤ} {path : List Char} :
    ∀ d ∈ shown (sent https now path jar), d ∈ jar := fun d hd => mem_of_mem_sent d (List.mem_filter.1 hd).1

/-- **The token that a request presents.** -/
theorem Keeps.presented (h : config.Keeps jar kept) (htidy : Tidy jar) (now : ℤ) (rest : List Char) :
    cookie (requestCookies config.secure now ('/' :: rest) jar) config.sessionCookieName =
      (kept.filter fun p => now < p.2).map (·.1.token.value) := by
  rw [cookie_requestCookies htidy]
  cases kept with
  | none =>
    rw [CookieJar.find?_named_nil h.1 mem_of_mem_sent]
    rfl
  | some kept =>
    obtain ⟨c, expires⟩ := kept
    rw [CookieJar.find?_named h.1 mem_of_mem_sent]
    simp only [stored_mem_sent h.1, Option.filter_some, decide_eq_true_eq]
    split_ifs <;> simp [stored]

/-- **The hint that scripts read.** -/
theorem Keeps.hint (h : config.Keeps jar kept) (htidy : Tidy jar) (now : ℤ) (rest : List Char) :
    extractCookieValue (utf16 (.ofList (header (shown (sent config.secure now ('/' :: rest) jar)))))
        (utf16 "broker_meta") =
      (kept.filter fun p => now < p.2).map fun p => utf16 (encodeMeta p.1.sessionMeta) := by
  have hprintable : ∀ c ∈ "broker_meta".toList, 32 ≤ c.toNat ∧ c.toNat < 127 := by simp
  rw [extractCookieValue_header (fun c hc => htidy c (mem_of_mem_shown c hc)) hprintable]
  cases kept with
  | none =>
    rw [CookieJar.find?_named_nil h.2 mem_of_mem_shown]
    rfl
  | some kept =>
    obtain ⟨c, expires⟩ := kept
    have hshown : config.stored "broker_meta" (encodeMeta c.sessionMeta) false expires ∈
        shown (sent config.secure now ('/' :: rest) jar) ↔ now < expires := by
      rw [shown, List.mem_filter, stored_mem_sent h.2]
      simp [stored]
    have hunits : (encodeMeta c.sessionMeta).toList.map codeUnit = utf16 (encodeMeta c.sessionMeta) := by
      rw [← utf16_printable (cookieText_encodeMeta c.sessionMeta).printable, String.ofList_toList]
    rw [CookieJar.find?_named h.2 mem_of_mem_shown]
    simp only [hshown, Option.filter_some, decide_eq_true_eq]
    split_ifs <;> simp [stored, hunits]

end

end CookieConfig

end SessionBroker
