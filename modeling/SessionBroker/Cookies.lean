/-
  The session cookie of a request, as the edge check reads it and as every other
  lane does.

  * `authzToken`: `/authz` reads the first `Cookie` header, takes either name
    and drops a blank value.
  * `cookie`: the handlers read every `Cookie` header, take the name of the
    mode and trim both sides of the equals sign.
  * `ReadAlike`: what a request's cookies must be for the two to agree.
  * `one_session_cookie_iff`: they agree on exactly those requests.
-/
import SessionBroker.Text

namespace SessionBroker

/-- `HttpConfig::session_cookie_name`. -/
def sessionCookieName (secure : Bool) : String :=
  if secure then "__Host-broker_session" else "broker_session"

/-- `guards::cookie`, over the values of the `Cookie` headers. -/
def cookie (headers : List Bytes) (name : String) : Option String :=
  ((((headers.filterMap headerText).flatMap (split ';')).filterMap (splitOnce '=')).find?
    fun pair => trim pair.1 = name).map fun pair => trim pair.2

/-- The value of a part of the header under one of the names. -/
def namedValue (part name : String) : Option String :=
  ((stripPrefix name part).bind (stripPrefix "=")).filter fun value => value ≠ ""

/-- `authz::session_cookie`. -/
def sessionCookie (cookieHeader : String) : Option String :=
  (split ';' cookieHeader).findSome? fun part =>
    ["__Host-broker_session", "broker_session"].findSome? (namedValue (trim part))

/-- The token `/authz` checks, `HeaderMap::get` being the first value. -/
def authzToken (headers : List Bytes) : Option String :=
  (headers.head?.bind headerText).bind sessionCookie

/-! ## Names and values -/

/-- The names and values of a header, the parts with an equals sign. -/
def cookiePairs (header : Bytes) : List (String × String) :=
  ((headerText header).elim [] (split ';')).filterMap (splitOnce '=')

/-- The cookies of the first header, the only ones `/authz` reads. -/
def firstPairs (headers : List Bytes) : List (String × String) :=
  headers.head?.elim [] cookiePairs

def laterPairs (headers : List Bytes) : List (String × String) := headers.tail.flatMap cookiePairs

/-- A cookie for the edge check: either name right before the equals sign, and a
    value that is not blank. -/
def ForEdge (pair : String × String) : Prop :=
  trimStart pair.1 ∈ ["__Host-broker_session", "broker_session"] ∧ trimEnd pair.2 ≠ ""

/-- A cookie for the handlers: the name of the mode, blanks aside. -/
def ForLane (name : String) (pair : String × String) : Prop := trim pair.1 = name

instance : DecidablePred ForEdge := fun _ => inferInstanceAs (Decidable (_ ∧ _))

instance (name : String) : DecidablePred (ForLane name) := fun _ => inferInstanceAs (Decidable (_ = _))

/-- The first of the cookies that matters carries this value. -/
def Carries (matters : String × String → Prop) [DecidablePred matters]
    (value : String × String → String) (pairs : List (String × String)) (v : String) : Prop :=
  ∃ pair ∈ pairs.find? (fun pair => matters pair), value pair = v

/-- The cookies two readers agree on. At the first one that matters to either:
    it matters to both and no blank precedes its value, or the first one after
    it that matters to the other reader carries the same value. -/
def ReadAlike (name : String) : List (String × String) → List (String × String) → Prop
  | [], later => ∀ pair ∈ later, ¬ForLane name pair
  | pair :: rest, later =>
    if ForEdge pair then
      if ForLane name pair then trimStart pair.2 = pair.2
      else Carries (ForLane name) (trim ·.2) (rest ++ later) (trimEnd pair.2)
    else if ForLane name pair then Carries ForEdge (trimEnd ·.2) rest (trim pair.2)
    else ReadAlike name rest later

/-! ## The two readers over names and values -/

theorem namedValue_eq_some {part name v : String} (hn : '=' ∉ name.toList) :
    namedValue (trim part) name = some v ↔
      ∃ pair, splitOnce '=' part = some pair ∧ trimStart pair.1 = name ∧ trimEnd pair.2 = v ∧
        v ≠ "" := by
  have hstrip : namedValue (trim part) name = some v ↔
      splitOnce '=' (trim part) = some (name, v) ∧ v ≠ "" := by
    rw [namedValue, Option.filter_eq_some_iff, Option.bind_eq_some_iff, splitOnce_eq_some]
    simp only [stripPrefix_eq_some, decide_eq_true_eq]
    constructor
    · rintro ⟨⟨rest, hrest, hv⟩, hne⟩
      exact ⟨⟨by rw [hrest, hv]; rfl, hn⟩, hne⟩
    · rintro ⟨⟨h, -⟩, hne⟩
      exact ⟨⟨.ofList ('=' :: v.toList), by rw [h, String.toList_ofList],
        by rw [String.toList_ofList]; rfl⟩, hne⟩
  -- both sides of the first equals sign lose their outer blanks only
  have htrim : ∀ a b, splitOnce '=' part = some (a, b) →
      splitOnce '=' (trim part) = some (trimStart a, trimEnd b) := by
    intro a b h
    obtain ⟨hp, ha⟩ := splitOnce_eq_some.1 h
    refine splitOnce_eq_some.2 ⟨trim_around (by decide) hp, fun hmem => ha ?_⟩
    rw [trimStart, String.toList_ofList] at hmem
    exact (List.dropWhile_sublist _).mem hmem
  rw [hstrip]
  constructor
  · rintro ⟨h, hne⟩
    have hmem : '=' ∈ part.toList := by
      apply mem_trim
      rw [(splitOnce_eq_some.1 h).1]
      simp
    cases hp : splitOnce '=' part with
    | none => simp [splitOnce, hmem] at hp
    | some pair =>
      rw [htrim pair.1 pair.2 hp] at h
      simp only [Option.some.injEq, Prod.mk.injEq] at h
      exact ⟨pair, rfl, h.1, h.2, hne⟩
  · rintro ⟨⟨a, b⟩, hp, rfl, rfl, hne⟩
    exact ⟨htrim a b hp, hne⟩

/-- A part of the header that is a cookie for the edge check gives its value. -/
theorem findSome?_namedValue (part : String) :
    ["__Host-broker_session", "broker_session"].findSome? (namedValue (trim part)) =
      ((splitOnce '=' part).filter fun pair => ForEdge pair).map fun pair => trimEnd pair.2 := by
  have hnamed : ∀ name ∈ ["__Host-broker_session", "broker_session"],
      namedValue (trim part) name =
        ((splitOnce '=' part).filter fun pair => trimStart pair.1 = name ∧ trimEnd pair.2 ≠ "").map
          fun pair => trimEnd pair.2 := by
    intro name hmem
    have hn : ∀ name ∈ ["__Host-broker_session", "broker_session"], '=' ∉ name.toList := by
      decide
    ext v
    rw [namedValue_eq_some (hn name hmem), Option.map_eq_some_iff]
    simp only [Option.filter_eq_some_iff, decide_eq_true_eq]
    constructor
    · rintro ⟨pair, hp, hname, rfl, hne⟩
      exact ⟨pair, ⟨hp, hname, hne⟩, rfl⟩
    · rintro ⟨pair, ⟨hp, hname, hne⟩, rfl⟩
      exact ⟨pair, hp, hname, rfl, hne⟩
  rw [List.findSome?_cons, List.findSome?_cons, hnamed _ (by simp), hnamed _ (by simp)]
  cases splitOnce '=' part with
  | none => rfl
  | some pair =>
    by_cases hh : trimStart pair.1 = "__Host-broker_session"
    · by_cases hv : trimEnd pair.2 = "" <;> simp [Option.filter_some, ForEdge, hv, hh]
    · by_cases hd : trimStart pair.1 = "broker_session" ∧ trimEnd pair.2 ≠ ""
      · simp [Option.filter_some, ForEdge, hd.1, hd.2]
      · have he : ¬ForEdge pair := by
          rintro ⟨hmem, hv⟩
          simp only [List.mem_cons, hh, false_or, List.not_mem_nil, or_false] at hmem
          exact hd ⟨hmem, hv⟩
        simp [Option.filter_some, hh, hd, he]

theorem sessionCookie_eq (header : String) :
    sessionCookie header = (((split ';' header).filterMap (splitOnce '=')).find?
      fun pair => ForEdge pair).map fun pair => trimEnd pair.2 := by
  unfold sessionCookie
  induction split ';' header with
  | nil => rfl
  | cons part parts ih =>
    rw [List.findSome?_cons, findSome?_namedValue, ih, List.filterMap_cons]
    cases splitOnce '=' part with
    | none => rfl
    | some pair =>
      by_cases he : ForEdge pair
      · simp [Option.filter_some, he]
      · simp [Option.filter_some, he]

theorem authzToken_eq (headers : List Bytes) :
    authzToken headers =
      ((firstPairs headers).find? fun pair => ForEdge pair).map fun pair => trimEnd pair.2 := by
  cases headers with
  | nil => rfl
  | cons header headers =>
    simp only [authzToken, firstPairs, cookiePairs, List.head?_cons, Option.bind_some,
      Option.elim_some]
    cases headerText header with
    | none => rfl
    | some text => exact sessionCookie_eq text

theorem cookie_eq (headers : List Bytes) (name : String) :
    cookie headers name = ((firstPairs headers ++ laterPairs headers).find?
      fun pair => ForLane name pair).map fun pair => trim pair.2 := by
  have hpairs : ((headers.filterMap headerText).flatMap (split ';')).filterMap (splitOnce '=') =
      headers.flatMap cookiePairs := by
    induction headers with
    | nil => rfl
    | cons header headers ih =>
      rw [List.filterMap_cons, List.flatMap_cons, ← ih, cookiePairs]
      cases headerText header with
      | none => rfl
      | some text => rw [List.flatMap_cons, List.filterMap_append]; rfl
  have hsplit : headers.flatMap cookiePairs = firstPairs headers ++ laterPairs headers := by
    cases headers <;> rfl
  rw [cookie, hpairs, hsplit]
  rfl

/-! ## Agreement -/

/-- What is not blank loses nothing at its end that a trim on both sides keeps,
    unless it starts with a blank. -/
theorem trimEnd_eq_trim {w : String} (hw : trimEnd w ≠ "") :
    trimEnd w = trim w ↔ trimStart w = w := by
  constructor
  · intro h
    have hl := congrArg String.toList h
    rw [trimEnd, trim, String.toList_ofList, String.toList_ofList] at hl
    have hne : w.toList.rdropWhile isWhiteSpace ≠ [] := by
      intro hnil
      exact hw (by rw [trimEnd, hnil])
    cases hc : w.toList with
    | nil =>
      rw [hc] at hne
      exact absurd rfl hne
    | cons x l =>
      rw [hc] at hl hne
      cases hx : isWhiteSpace x with
      | false => rw [trimStart, hc, List.dropWhile_cons_of_neg (by simp [hx]), ← hc,
          String.ofList_toList]
      | true =>
        -- the end of `w` starts with a blank, the trim of it does not
        obtain ⟨t, ht⟩ : ∃ t, (x :: l).rdropWhile isWhiteSpace = x :: t := by
          obtain ⟨r, hr⟩ := List.rdropWhile_prefix isWhiteSpace (x :: l)
          cases hd : (x :: l).rdropWhile isWhiteSpace with
          | nil => exact absurd hd hne
          | cons y t =>
            rw [hd, List.cons_append] at hr
            exact ⟨t, by rw [(List.cons.inj hr).1]⟩
        rw [ht] at hl
        obtain ⟨r, hr⟩ := List.rdropWhile_prefix isWhiteSpace ((x :: l).dropWhile isWhiteSpace)
        rw [← hl, List.cons_append] at hr
        have hd : (x :: l).dropWhile isWhiteSpace ≠ [] := by
          rw [← hr]
          exact List.cons_ne_nil _ _
        have hhead := List.head_dropWhile_not isWhiteSpace hd
        simp only [← hr, List.head_cons, hx] at hhead
        exact absurd hhead (by simp)
  · intro h
    rw [trim_eq, h]

/-- Two readers of a list find the same, once they agree on the first entry
    that matters to either. -/
theorem readAlike_iff (name : String) (first later : List (String × String)) :
    ((first.find? fun pair => ForEdge pair).map fun pair => trimEnd pair.2) =
        (((first ++ later).find? fun pair => ForLane name pair).map fun pair => trim pair.2) ↔
      ReadAlike name first later := by
  induction first with
  | nil =>
    rw [List.nil_append, List.find?_nil, Option.map_none, eq_comm, Option.map_eq_none_iff,
      List.find?_eq_none]
    simp only [decide_eq_true_eq]
    rfl
  | cons pair rest ih =>
    rw [ReadAlike]
    by_cases he : ForEdge pair
    · rw [if_pos he, List.find?_cons_of_pos (by simpa using he), Option.map_some]
      by_cases hl : ForLane name pair
      · rw [if_pos hl, List.cons_append, List.find?_cons_of_pos (by simpa using hl),
          Option.map_some, Option.some_inj]
        exact trimEnd_eq_trim he.2
      · rw [if_neg hl, List.cons_append, List.find?_cons_of_neg (by simpa using hl), eq_comm,
          Option.map_eq_some_iff]
        rfl
    · rw [if_neg he, List.find?_cons_of_neg (by simpa using he)]
      by_cases hl : ForLane name pair
      · rw [if_pos hl, List.cons_append, List.find?_cons_of_pos (by simpa using hl),
          Option.map_some, Option.map_eq_some_iff]
        rfl
      · rw [if_neg hl, List.cons_append, List.find?_cons_of_neg (by simpa using hl)]
        exact ih

/-- The edge check and the handlers read the same session cookie of exactly the
    requests whose cookies read alike. -/
theorem one_session_cookie_iff (headers : List Bytes) (secure : Bool) :
    authzToken headers = cookie headers (sessionCookieName secure) ↔
      ReadAlike (sessionCookieName secure) (firstPairs headers) (laterPairs headers) := by
  rw [authzToken_eq, cookie_eq]
  exact readAlike_iff _ _ _

/-- `a=b` and `__Host-broker_session=t`, each in a header of its own. -/
def splitCookies : List Bytes :=
  ["a=b", "__Host-broker_session=t"].map fun text => text.toList.map fun c => c.toNat.toUInt8

/-- A session cookie in the second header is none to the edge check. -/
theorem edge_reads_one_header :
    ¬∀ (headers : List Bytes) (secure : Bool),
      authzToken headers = cookie headers (sessionCookieName secure) := by
  intro h
  have hedge : authzToken splitCookies = none := by decide +kernel
  have hlane : cookie splitCookies (sessionCookieName true) = some "t" := by decide +kernel
  have hboth := h splitCookies true
  rw [hedge, hlane] at hboth
  cases hboth

end SessionBroker
