/-
  The meta cookie between the two languages (`encode_meta` and `decode_meta` of
  `http/mod.rs`, `meta.ts`).

  * `encodeMeta`, `decodeMeta`: the server's side, in Rust;
  * `Platform.getSessionMeta`: the client's side, in JavaScript, over the string
    of all cookies; a `catch` is a match on what was thrown;
  * `Cookie`: one cookie of such a string, with the name the client sees;
  * `meta_cookie_round_trip`: the server's value reaches the client among other
    cookies, and whatever else there is makes `null` or a value of the declared
    shape.
-/
import SessionBroker.Keyfile
import SessionBroker.Lib.JsString

namespace SessionBroker

open Crypto Js

/-! ## The server -/

def CustodyStatus.text : CustodyStatus → String
  | ok => "ok"
  | degraded => "degraded"
  | dead => "dead"

/-- A character within a string of JSON. -/
def jsonChar (c : Char) : String :=
  match c.toNat with
  | 8 => "\\b"
  | 9 => "\\t"
  | 10 => "\\n"
  | 12 => "\\f"
  | 13 => "\\r"
  | 34 => "\\\""
  | 92 => "\\\\"
  | n => if n < 32 then .ofList ['\\', 'u', '0', '0', Nat.digitChar (n / 16), Nat.digitChar (n % 16)]
    else .singleton c

def jsonString (s : String) : String := "\"" ++ String.join (s.toList.map jsonChar) ++ "\""

namespace SessionMeta

/-- The fields, each with its value in JSON. -/
def fields (m : SessionMeta) : List (String × String) :=
  [("v", toString m.v), ("sub", jsonString m.sub), ("sid", jsonString m.sid), ("gen", toString m.gen),
    ("active_until", toString m.activeUntil), ("refresh_until", toString m.refreshUntil),
    ("absolute_until", toString m.absoluteUntil), ("custody", jsonString m.custody.text)]

/-- `serde_json::to_vec`, as text. -/
def json (m : SessionMeta) : String :=
  "\x7b" ++ ",".intercalate (m.fields.map fun field => jsonString field.1 ++ ":" ++ field.2) ++ "\x7d"

/-- The numbers of a `u8`, a `u32` and of instants that a double is exact on. -/
def Safe (m : SessionMeta) : Prop :=
  m.v < 2 ^ 8 ∧ m.gen < 2 ^ 32 ∧ |m.activeUntil| ≤ 2 ^ 53 - 1 ∧ |m.refreshUntil| ≤ 2 ^ 53 - 1 ∧
    |m.absoluteUntil| ≤ 2 ^ 53 - 1

/-- The object that the client has for it. -/
def value (m : SessionMeta) : Value :=
  .object
    [(utf16 "v", .number (.finite m.v)), (utf16 "sub", .string (utf16 m.sub)),
      (utf16 "sid", .string (utf16 m.sid)), (utf16 "gen", .number (.finite m.gen)),
      (utf16 "active_until", .number (.finite m.activeUntil)),
      (utf16 "refresh_until", .number (.finite m.refreshUntil)),
      (utf16 "absolute_until", .number (.finite m.absoluteUntil)),
      (utf16 "custody", .string (utf16 m.custody.text))]

end SessionMeta

/-- `encode_meta`. -/
def encodeMeta (m : SessionMeta) : String := .ofList (Base64.encode (asBytes m.json))

/-- `decode_meta`, over `serde_json::from_slice`. -/
def decodeMeta (fromSlice : Bytes → Option SessionMeta) (value : String) : Option SessionMeta :=
  (Base64.decode value.toList).bind fromSlice

/-! ## The client -/

/-- What is thrown. -/
inductive Thrown where
  | invalidCharacterError
  | syntaxError
deriving DecidableEq, Repr

/-- What the client calls: `JSON.parse`, and what `TextDecoder` makes of bytes
    that are not UTF-8. -/
structure Platform where
  jsonParse : Units → Except Thrown Value
  replaced : Bytes → Units

def hasNumber (value : Value) (key : String) : Bool :=
  match value.get key with
  | some (.number _) => true
  | _ => false

def hasString (value : Value) (key : String) : Bool :=
  match value.get key with
  | some (.string _) => true
  | _ => false

/-- `CUSTODY_VALUES`. -/
def custodyValues : List Units := [utf16 "ok", utf16 "degraded", utf16 "dead"]

def hasCustody (value : Value) : Bool :=
  match value.get "custody" with
  | some (.string s) => custodyValues.contains s
  | _ => false

/-- An object that is not `null`. -/
def isObject : Value → Bool
  | .array _ | .object _ => true
  | _ => false

def isSessionMeta (value : Value) : Bool :=
  isObject value && hasNumber value "v" && hasString value "sub" && hasString value "sid" &&
    hasNumber value "gen" && hasNumber value "active_until" && hasNumber value "refresh_until" &&
    hasNumber value "absolute_until" && hasCustody value

/-- `extractCookieValue`, for one of the pairs. -/
def pairValue (name : Units) (pair : Units) : Option Units :=
  if 61 ∈ pair then
    if Js.trim (pair.takeWhile (· ≠ 61)) = name then some (Js.trim (pair.dropWhile (· ≠ 61)).tail) else none
  else none

def extractCookieValue (cookieHeader name : Units) : Option Units :=
  (cookieHeader.splitOn 59).findSome? (pairValue name)

namespace Platform

variable (js : Platform)

/-- `new TextDecoder().decode(bytes)`: a byte order mark goes. -/
def textDecode (bytes : Bytes) : Units :=
  match fromUtf8 bytes with
  | some s => utf16 (if s.toList.head? = some '\uFEFF' then .ofList s.toList.tail else s)
  | none => js.replaced bytes

def base64UrlDecode (value : Units) : Except Thrown Units :=
  match atob (pad (value.map fromUrl)) with
  | some bytes => .ok (js.textDecode bytes)
  | none => .error .invalidCharacterError

/-- `decodeMeta` of the client; `none` is `null`. -/
def decodeMeta (value : Units) : Except Thrown (Option Value) :=
  match js.base64UrlDecode value with
  | .error _ => .ok none
  | .ok json => match js.jsonParse json with
    | .error _ => .ok none
    | .ok parsed => .ok (if isSessionMeta parsed then some parsed else none)

/-- `getSessionMeta`, with its argument, and `parseMetaCookie`. -/
def getSessionMeta (cookieHeader : Units) : Except Thrown (Option Value) :=
  match extractCookieValue cookieHeader (utf16 "broker_meta") with
  | none => .ok none
  | some raw => js.decodeMeta raw

end Platform

/-! ## Values -/

/-- The declared shape. -/
structure DeclaredMeta (value : Value) : Prop where
  number : ∀ key ∈ ["v", "gen", "active_until", "refresh_until", "absolute_until"],
    ∃ x, value.get key = some (.number x)
  string : ∀ key ∈ ["sub", "sid"], ∃ s, value.get key = some (.string s)
  custody : ∃ status : CustodyStatus, value.get "custody" = some (.string (utf16 status.text))

section

variable {value : Value} {key : String}

theorem hasNumber_iff : hasNumber value key = true ↔ ∃ x, value.get key = some (.number x) := by
  unfold hasNumber
  cases value.get key with
  | none => simp
  | some field => cases field <;> simp

theorem hasString_iff : hasString value key = true ↔ ∃ s, value.get key = some (.string s) := by
  unfold hasString
  cases value.get key with
  | none => simp
  | some field => cases field <;> simp

theorem hasCustody_iff : hasCustody value = true ↔
    ∃ status : CustodyStatus, value.get "custody" = some (.string (utf16 status.text)) := by
  have hvalues : ∀ s, s ∈ custodyValues ↔ ∃ status : CustodyStatus, s = utf16 status.text := by
    intro s
    constructor
    · intro h
      simp only [custodyValues, List.mem_cons, List.not_mem_nil, or_false] at h
      rcases h with rfl | rfl | rfl
      · exact ⟨.ok, rfl⟩
      · exact ⟨.degraded, rfl⟩
      · exact ⟨.dead, rfl⟩
    · rintro ⟨status, rfl⟩
      cases status
      · exact .head _
      · exact .tail _ (.head _)
      · exact .tail _ (.tail _ (.head _))
  unfold hasCustody
  cases value.get "custody" with
  | none => simp
  | some field =>
    cases field with
    | string s => simp [hvalues]
    | null | bool _ | number _ | array _ | object _ => simp

/-- **What the guard lets through** is of the declared shape. -/
theorem isSessionMeta_iff : isSessionMeta value = true ↔ DeclaredMeta value := by
  have hobject : (∃ x, value.get "v" = some (.number x)) → isObject value = true := by
    rintro ⟨x, hx⟩
    cases value with
    | object _ | array _ => rfl
    | null | bool _ | number _ | string _ => cases hx
  simp only [isSessionMeta, Bool.and_eq_true, hasNumber_iff, hasString_iff, hasCustody_iff]
  constructor
  · rintro ⟨⟨⟨⟨⟨⟨⟨⟨-, hv⟩, hsub⟩, hsid⟩, hgen⟩, hactive⟩, hrefresh⟩, habsolute⟩, hcustody⟩
    refine ⟨?_, ?_, hcustody⟩
    · simp only [List.mem_cons, List.not_mem_nil, or_false, forall_eq_or_imp, forall_eq]
      exact ⟨hv, hgen, hactive, hrefresh, habsolute⟩
    · simp only [List.mem_cons, List.not_mem_nil, or_false, forall_eq_or_imp, forall_eq]
      exact ⟨hsub, hsid⟩
  · rintro ⟨hnumber, hstring, hcustody⟩
    simp only [List.mem_cons, List.not_mem_nil, or_false, forall_eq_or_imp, forall_eq] at hnumber hstring
    obtain ⟨hv, hgen, hactive, hrefresh, habsolute⟩ := hnumber
    exact ⟨⟨⟨⟨⟨⟨⟨⟨hobject hv, hv⟩, hstring.1⟩, hstring.2⟩, hgen⟩, hactive⟩, hrefresh⟩, habsolute⟩, hcustody⟩

end

/-- The guard lets the server's value through. -/
theorem SessionMeta.isSessionMeta_value (m : SessionMeta) : isSessionMeta m.value = true := by
  have hcustody : m.value.get "custody" = some (.string (utf16 m.custody.text)) := rfl
  rw [isSessionMeta, hasCustody_iff.2 ⟨m.custody, hcustody⟩]
  rfl

/-! ## Cookies -/

/-- A cookie of a cookie string, with the blanks around it. -/
abbrev Cookie := { pair : Units // 59 ∉ pair }

abbrev Spaces := { l : Units // ∀ u ∈ l, isSpace u = true }

/-- The name of a cookie, as the client reads it. -/
def Cookie.name (c : Cookie) : Option Units :=
  if 61 ∈ c.1 then some (Js.trim (c.1.takeWhile (· ≠ 61))) else none

/-- The name that the browser keeps: spaces and tabs go. -/
def Cookie.keptName (c : Cookie) : Option Units :=
  if 61 ∈ c.1 then some (Trim.trim (fun u => u = 32 || u = 9) (c.1.takeWhile (· ≠ 61))) else none

/-- The pair that `issue_cookies` sets. -/
def metaPair (m : SessionMeta) : Units := utf16 "broker_meta" ++ 61 :: utf16 (encodeMeta m)

/-- The string of all cookies, with the meta cookie among others. -/
def cookieString (before : List Cookie) (lead : Spaces) (m : SessionMeta) (trail : Spaces)
    (after : List Cookie) : Units :=
  [59].intercalate (before.map (·.1) ++ (lead.1 ++ metaPair m ++ trail.1) :: after.map (·.1))

/-- The code units of an encoding. -/
theorem utf16_encodeMeta (m : SessionMeta) : ∃ l : List ℕ, (∀ n ∈ l, n < 64) ∧
    utf16 (encodeMeta m) = l.map digitUnit := by
  obtain ⟨l, hl, -, -, hdigits⟩ := exists_digits (asBytes m.json)
  exact ⟨l, hl, by rw [utf16, encodeMeta, String.toList_ofList, hdigits]⟩

theorem not_mem_of_isSpace {l : Units} (h : ∀ u ∈ l, isSpace u = true) {u : UInt16}
    (hu : isSpace u = false) : u ∉ l := by
  intro hmem
  rw [h u hmem] at hu
  cases hu

theorem encodeMeta_trimmed (m : SessionMeta) : Trim.Trimmed isSpace (utf16 (encodeMeta m)) := by
  obtain ⟨l, hl, hdigits⟩ := utf16_encodeMeta m
  rw [hdigits]
  refine .of_forall fun u hu => ?_
  obtain ⟨n, hn, rfl⟩ := List.mem_map.1 hu
  exact (digitUnit_eq (hl n hn)).2.1

theorem semicolon_not_mem (lead trail : Spaces) (m : SessionMeta) :
    59 ∉ lead.1 ++ metaPair m ++ trail.1 := by
  obtain ⟨l, hl, hdigits⟩ := utf16_encodeMeta m
  have hsemicolon : isSpace 59 = false := by decide
  have hname : 59 ∉ utf16 "broker_meta" := by decide +kernel
  have hvalue : 59 ∉ l.map digitUnit := by
    intro hmem
    obtain ⟨n, hn, h⟩ := List.mem_map.1 hmem
    exact (digitUnit_eq (hl n hn)).2.2.1 h
  simp only [metaPair, hdigits, List.mem_append, List.mem_cons, not_or]
  exact ⟨⟨not_mem_of_isSpace lead.2 hsemicolon, hname, by decide, hvalue⟩,
    not_mem_of_isSpace trail.2 hsemicolon⟩

/-- The client finds the value of the pair. -/
theorem pairValue_metaPair (lead trail : Spaces) (m : SessionMeta) :
    pairValue (utf16 "broker_meta") (lead.1 ++ metaPair m ++ trail.1) = some (utf16 (encodeMeta m)) := by
  have hequals : isSpace 61 = false := by decide
  have hname : 61 ∉ utf16 "broker_meta" := by decide +kernel
  have hbefore : ∀ u ∈ lead.1 ++ utf16 "broker_meta", u ≠ 61 := by
    rintro u hu rfl
    rcases List.mem_append.1 hu with hu | hu
    · exact not_mem_of_isSpace lead.2 hequals hu
    · exact hname hu
  have hpair : lead.1 ++ metaPair m ++ trail.1 =
      lead.1 ++ utf16 "broker_meta" ++ 61 :: (utf16 (encodeMeta m) ++ trail.1) := by
    simp [metaPair]
  have htake : (lead.1 ++ utf16 "broker_meta" ++ 61 :: (utf16 (encodeMeta m) ++ trail.1)).takeWhile
      (· ≠ 61) = lead.1 ++ utf16 "broker_meta" := by
    refine Trim.takeWhile_stop (fun u hu => decide_eq_true (hbefore u hu)) fun u hu => ?_
    cases hu
    rfl
  have hdrop : (lead.1 ++ utf16 "broker_meta" ++ 61 :: (utf16 (encodeMeta m) ++ trail.1)).dropWhile
      (· ≠ 61) = 61 :: (utf16 (encodeMeta m) ++ trail.1) := by
    refine Trim.dropWhile_stop (fun u hu => decide_eq_true (hbefore u hu)) fun u hu => ?_
    cases hu
    rfl
  have hall : (utf16 "broker_meta").all (fun u => !isSpace u) = true := by decide +kernel
  have htrimmed : Trim.Trimmed isSpace (utf16 "broker_meta") :=
    .of_forall fun u hu => by simpa using List.all_eq_true.1 hall u hu
  have hkey : Js.trim (lead.1 ++ utf16 "broker_meta") = utf16 "broker_meta" := by
    have hbetween := Trim.trim_between (b := []) lead.2 htrimmed nofun
    rwa [List.append_nil] at hbetween
  have hvalue : Js.trim (utf16 (encodeMeta m) ++ trail.1) = utf16 (encodeMeta m) := by
    have hbetween := Trim.trim_between (a := []) nofun (encodeMeta_trimmed m) trail.2
    rwa [List.nil_append] at hbetween
  rw [hpair, pairValue, if_pos (by simp), htake, hkey, if_pos rfl, hdrop, List.tail_cons, hvalue]

theorem pairValue_of_name_ne {c : Cookie} {name : Units} (h : c.name ≠ some name) :
    pairValue name c.1 = none := by
  unfold Cookie.name at h
  unfold pairValue
  split_ifs with heq hname
  · rw [if_pos heq, hname] at h
    exact absurd rfl h
  · rfl
  · rfl

theorem splitOn_cookieString (before : List Cookie) (lead : Spaces) (m : SessionMeta) (trail : Spaces)
    (after : List Cookie) : (cookieString before lead m trail after).splitOn 59 =
      before.map (·.1) ++ (lead.1 ++ metaPair m ++ trail.1) :: after.map (·.1) := by
  refine List.splitOn_intercalate 59 ?_ (by simp)
  intro pair hpair
  rcases List.mem_append.1 hpair with hpair | hpair
  · obtain ⟨c, -, rfl⟩ := List.mem_map.1 hpair
    exact c.2
  · rcases List.mem_cons.1 hpair with rfl | hpair
    · exact semicolon_not_mem lead trail m
    · obtain ⟨c, -, rfl⟩ := List.mem_map.1 hpair
      exact c.2

/-- **The client finds the cookie** behind cookies of other names. -/
theorem extractCookieValue_cookieString {before : List Cookie}
    (h : ∀ c ∈ before, c.name ≠ some (utf16 "broker_meta")) (lead : Spaces) (m : SessionMeta)
    (trail : Spaces) (after : List Cookie) :
    extractCookieValue (cookieString before lead m trail after) (utf16 "broker_meta") =
      some (utf16 (encodeMeta m)) := by
  have hbefore : (before.map (·.1)).findSome? (pairValue (utf16 "broker_meta")) = none := by
    rw [List.findSome?_eq_none_iff]
    intro pair hpair
    obtain ⟨c, hc, rfl⟩ := List.mem_map.1 hpair
    exact pairValue_of_name_ne (h c hc)
  rw [extractCookieValue, splitOn_cookieString, List.findSome?_append, hbefore, Option.none_or,
    List.findSome?_cons, pairValue_metaPair]

/-! ## Both sides -/

theorem decodeMeta_encodeMeta (fromSlice : Bytes → Option SessionMeta) (m : SessionMeta) :
    decodeMeta fromSlice (encodeMeta m) = fromSlice (asBytes m.json) := by
  rw [decodeMeta, encodeMeta, String.toList_ofList, Base64.decode_encode, Option.bind_some]

namespace Platform

variable {js : Platform}

/-- The client has the text that the server wrote. -/
theorem base64UrlDecode_encodeMeta (m : SessionMeta) :
    js.base64UrlDecode (utf16 (encodeMeta m)) = .ok (utf16 m.json) := by
  have hatob := atob_padded (asBytes m.json)
  have hbrace : m.json.toList.head? ≠ some '﻿' := by
    simp [SessionMeta.json]
  rw [base64UrlDecode, encodeMeta, utf16, String.toList_ofList, hatob]
  dsimp only
  rw [textDecode, fromUtf8_asBytes]
  dsimp only
  rw [if_neg hbrace]

/-- Whatever the cookies are. -/
theorem getSessionMeta_total (js : Platform) (cookieHeader : Units) :
    ∃ result, js.getSessionMeta cookieHeader = .ok result ∧ ∀ value ∈ result, DeclaredMeta value := by
  unfold getSessionMeta
  cases extractCookieValue cookieHeader (utf16 "broker_meta") with
  | none => exact ⟨none, rfl, nofun⟩
  | some raw =>
    simp only [Platform.decodeMeta]
    cases js.base64UrlDecode raw with
    | error e => exact ⟨none, rfl, nofun⟩
    | ok json =>
      dsimp only
      cases js.jsonParse json with
      | error e => exact ⟨none, rfl, nofun⟩
      | ok parsed =>
        refine ⟨_, rfl, fun value hvalue => ?_⟩
        split_ifs at hvalue with hguard
        · rw [Option.mem_some_iff] at hvalue
          exact hvalue ▸ isSessionMeta_iff.1 hguard
        · cases hvalue

end Platform

/-- **The meta cookie crosses.**  Among cookies whose names are others to the
    client, it has the value the server sent, which the server reads back too;
    and any other string makes `null` or a value of the declared shape. -/
theorem meta_cookie_round_trip (js : Platform) (fromSlice : Bytes → Option SessionMeta) :
    (∀ m before lead trail after, m.Safe → (m.Safe → js.jsonParse (utf16 m.json) = .ok m.value) →
      (m.Safe → fromSlice (asBytes m.json) = some m) →
      (∀ c ∈ before ++ after, Cookie.name c ≠ some (utf16 "broker_meta")) →
      js.getSessionMeta (cookieString before lead m trail after) = .ok (some m.value) ∧
        decodeMeta fromSlice (encodeMeta m) = some m) ∧
    ∀ cookieHeader, ∃ result, js.getSessionMeta cookieHeader = .ok result ∧
      ∀ value ∈ result, DeclaredMeta value := by
  refine ⟨fun m before lead trail after hsafe hjson hserde hothers => ⟨?_, ?_⟩, js.getSessionMeta_total⟩
  · have hbefore : ∀ c ∈ before, Cookie.name c ≠ some (utf16 "broker_meta") :=
      fun c hc => hothers c (List.mem_append_left _ hc)
    rw [Platform.getSessionMeta, extractCookieValue_cookieString hbefore lead m trail after]
    dsimp only
    rw [Platform.decodeMeta, Platform.base64UrlDecode_encodeMeta]
    dsimp only
    rw [hjson hsafe]
    dsimp only
    rw [if_pos m.isSessionMeta_value]
  · rw [decodeMeta_encodeMeta, hserde hsafe]

/-- A value with a character that is escaped, and one of two code units. -/
def SessionMeta.sample : SessionMeta where
  v := 1
  sub := "ä\""
  sid := "😀"
  gen := 2
  activeUntil := 1700000600
  refreshUntil := 1700003600
  absoluteUntil := 1700086400
  custody := .ok

example : SessionMeta.sample.json = "\x7b\"v\":1,\"sub\":\"ä\\\"\",\"sid\":\"😀\",\"gen\":2," ++
    "\"active_until\":1700000600,\"refresh_until\":1700003600,\"absolute_until\":1700086400," ++
    "\"custody\":\"ok\"\x7d" := by
  decide +kernel

theorem meta_cookie_among_two : ∃ js fromSlice before lead trail after, before ≠ [] ∧ after ≠ [] ∧
    Platform.getSessionMeta js (cookieString before lead .sample trail after) = .ok (some SessionMeta.sample.value) ∧
      decodeMeta fromSlice (encodeMeta .sample) = some .sample := by
  have hsafe : SessionMeta.sample.Safe := by
    simp [SessionMeta.Safe, SessionMeta.sample]
  have hothers : ∀ c ∈ ([⟨utf16 "theme=dark", by decide +kernel⟩] : List Cookie) ++
      [⟨utf16 " a=b=c", by decide +kernel⟩], c.name ≠ some (utf16 "broker_meta") := by
    decide +kernel
  have hjson : ∃ js : Platform, js.jsonParse (utf16 SessionMeta.sample.json) = .ok SessionMeta.sample.value := by
    generalize utf16 SessionMeta.sample.json = text
    exact ⟨⟨fun s => if s = text then .ok SessionMeta.sample.value else .error .syntaxError, fun _ => []⟩, if_pos rfl⟩
  have hserde : ∃ fromSlice : Bytes → Option SessionMeta,
      fromSlice (asBytes SessionMeta.sample.json) = some .sample := by
    generalize asBytes SessionMeta.sample.json = bytes
    exact ⟨fun s => if s = bytes then some .sample else none, if_pos rfl⟩
  obtain ⟨js, hjs⟩ := hjson
  obtain ⟨fromSlice, hslice⟩ := hserde
  exact ⟨js, fromSlice, _, ⟨[32], by simp [isSpace]⟩, ⟨[], nofun⟩, _, List.cons_ne_nil _ _, List.cons_ne_nil _ _,
    (meta_cookie_round_trip js fromSlice).1 .sample _ _ _ _ hsafe (fun _ => hjs) (fun _ => hslice) hothers⟩

/-- A name that starts with a no-break space is another name to the browser and
    the same one to the client. -/
theorem nbsp_name_shadows : ∃ c : Cookie, c.keptName ≠ some (utf16 "broker_meta") ∧
    ∀ (js : Platform) lead m trail, js.getSessionMeta (cookieString [c] lead m trail []) = .ok none := by
  refine ⟨⟨0xA0 :: utf16 "broker_meta=x", by decide +kernel⟩, by decide +kernel, fun js lead m trail => ?_⟩
  have hvalue : pairValue (utf16 "broker_meta") (0xA0 :: utf16 "broker_meta=x") = some (utf16 "x") := by
    decide +kernel
  have hatob : atob (pad ((utf16 "x").map fromUrl)) = none := by decide +kernel
  rw [Platform.getSessionMeta, extractCookieValue, splitOn_cookieString, List.map_singleton,
    List.singleton_append, List.findSome?_cons, hvalue]
  dsimp only
  rw [Platform.decodeMeta, Platform.base64UrlDecode, hatob]

end SessionBroker
