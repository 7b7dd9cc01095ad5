/-
  The signing keys of an identity provider, as its client holds them
  (`OidcClient::refetch_keys` and the end of `complete_login`, `oauth.rs`).

  * Each login is cut at its two looks at the ID token, at the lock between them,
    and at the fetch inside it; a request may be dropped at any of them;
  * whether `openidconnect` finds the key of a token in a set of keys is a
    parameter, and the provider may answer each fetch with any set;
  * `Tidy`: the lock is held across a fetch, and what is held is what the last
    fetch that brought keys brought;
  * `refetch_finds_keys`: when a login is refused for want of a key.
-/
import SessionBroker.Clock
import SessionBroker.Lib.Run
import Mathlib.Data.List.Chain

namespace SessionBroker

open Runs

namespace ProviderKeys

/-- `JWKS_REFETCH_MIN_INTERVAL_SECS`. -/
def jwksRefetchMinIntervalSecs : ℕ := 300

variable {κ τ : Type*}

/-- A refetch that is over: when it was begun, and what the provider answered. -/
structure Refetch (κ : Type*) where
  started : Timestamp
  answer : Option (List κ)

inductive Stage (κ : Type*) where
  /-- The code is exchanged. -/
  | exchanged
  /-- The key was unknown. -/
  | locking
  /-- The lock is held, and the request on its way. -/
  | fetching
  /-- The answer is on its way. -/
  | answered (keys : Option (List κ))
  /-- The first look is over: with the refetches that were over at it, if it found the key. -/
  | verifying (first : Option ℕ)
  /-- The second look, whether it missed the key, and the refetches that were over at it. -/
  | done (first : Option ℕ) (missed : Bool) (after : ℕ)
  /-- The request was dropped. -/
  | dropped

def Stage.fetches : Stage κ → Bool
  | .fetching | .answered _ => true
  | _ => false

structure Login (κ τ : Type*) where
  token : τ
  now : Timestamp
  stage : Stage κ

/-- The client, its logins, and what it has refetched. -/
structure State (κ τ : Type*) where
  /-- The keys of `core`. -/
  held : List κ
  /-- `last_key_refetch`, and the login that has its lock. -/
  last : Option Timestamp
  locked : Option ℕ
  logins : List (Login κ τ)
  refetches : List (Refetch κ)

inductive Action (κ τ : Type*) where
  | exchange (token : τ) (now : Timestamp)
  | verify (i : ℕ)
  | lock (i : ℕ)
  /-- The provider answers, or the fetch fails. -/
  | answer (i : ℕ) (keys : Option (List κ))
  | swap (i : ℕ)
  | verifyAgain (i : ℕ)
  | drop (i : ℕ)

namespace State

def init (discovered : List κ) : State κ τ := ⟨discovered, none, none, [], []⟩

def set (s : State κ τ) (i : ℕ) (stage : Stage κ) : State κ τ :=
  { s with logins := s.logins.modify i fun login => { login with stage := stage } }

/-- The lock is released, with what came of the fetch. -/
def release (s : State κ τ) (login : Login κ τ) (answer : Option (List κ)) : State κ τ :=
  { s with locked := none, refetches := s.refetches ++ [⟨login.now, answer⟩] }

/-- `refetch_keys`, when the answer is there: an empty set keeps those held. -/
def take (s : State κ τ) : Option (List κ) → State κ τ
  | some (key :: keys) => { s with held := key :: keys }
  | _ => s

/-- `refetch_keys`, once the lock is free. -/
def lock (s : State κ τ) (i : ℕ) (login : Login κ τ) : State κ τ :=
  if s.last.any fun at_ => login.now.since at_ < jwksRefetchMinIntervalSecs then s.set i (.verifying none)
  else { s.set i .fetching with last := some login.now, locked := some i }

/-- `unknown` is whether `claims` ends in `NoMatchingKey`, which it says before it looks at the time. -/
def step (unknown : List κ → τ → Bool) (s : State κ τ) : Action κ τ → State κ τ
  | .exchange token now => { s with logins := s.logins ++ [⟨token, now, .exchanged⟩] }
  | .verify i =>
    match s.logins[i]? with
    | some ⟨token, _, .exchanged⟩ =>
      s.set i (if unknown s.held token then .locking else .verifying (some s.refetches.length))
    | _ => s
  | .lock i =>
    match s.logins[i]? with
    | some login@⟨_, _, .locking⟩ => if s.locked = none then s.lock i login else s
    | _ => s
  | .answer i keys =>
    match s.logins[i]? with
    | some ⟨_, _, .fetching⟩ => s.set i (.answered keys)
    | _ => s
  | .swap i =>
    match s.logins[i]? with
    | some login@⟨_, _, .answered keys⟩ => ((s.take keys).release login keys).set i (.verifying none)
    | _ => s
  | .verifyAgain i =>
    match s.logins[i]? with
    | some ⟨token, _, .verifying first⟩ => s.set i (.done first (unknown s.held token) s.refetches.length)
    | _ => s
  | .drop i =>
    match s.logins[i]? with
    | some ⟨_, _, .done ..⟩ | none => s
    | some login => (if login.stage.fetches then s.release login none else s).set i .dropped

end State

/-- The set that the refetches leave. -/
def holds (discovered : List κ) (refetches : List (Refetch κ)) : List κ :=
  refetches.foldl (fun held r => match r.answer with
    | some (key :: keys) => key :: keys
    | _ => held) discovered

/-- A login's own refetch, or one begun less than the interval before it. -/
def Recent (now : Timestamp) (r : Refetch κ) : Prop := now.secs < r.started.secs + jwksRefetchMinIntervalSecs

/-- The interval lies between the two. -/
def Spaced (t u : Timestamp) : Prop := t.secs + jwksRefetchMinIntervalSecs ≤ u.secs

/-- A clock reading. -/
def Readable (t : Timestamp) : Prop := 0 ≤ t.secs ∧ t.secs < 2 ^ 63

instance (t : Timestamp) : Decidable (Readable t) := inferInstanceAs (Decidable (_ ∧ _))

/-- The first look found the key, or a refetch is recent. -/
def Looked (unknown : List κ → τ → Bool) (discovered : List κ) (refetches : List (Refetch κ)) (login : Login κ τ) :
    Option ℕ → Prop
  | none => ∃ r, refetches.getLast? = some r ∧ Recent login.now r
  | some first => first ≤ refetches.length ∧ unknown (holds discovered (refetches.take first)) login.token = false

/-- What is known of a login, by its stage. -/
def Known (unknown : List κ → τ → Bool) (discovered : List κ) (s : State κ τ) (i : ℕ) (login : Login κ τ) : Prop :=
  match login.stage with
  | .exchanged | .locking | .dropped => s.locked ≠ some i
  | .fetching | .answered _ => s.locked = some i ∧ s.last = some login.now
  | .verifying first => s.locked ≠ some i ∧ Looked unknown discovered s.refetches login first
  | .done first missed after => s.locked ≠ some i ∧ after ≤ s.refetches.length ∧
      missed = unknown (holds discovered (s.refetches.take after)) login.token ∧
      Looked unknown discovered (s.refetches.take after) login first

/-- When the refetches were begun, with the one under way. -/
def State.begun (s : State κ τ) : List Timestamp :=
  s.refetches.map (·.started) ++ if s.locked = none then [] else s.last.toList

/-- **What every step keeps.** -/
structure Tidy (unknown : List κ → τ → Bool) (discovered : List κ) (s : State κ τ) : Prop where
  held : s.held = holds discovered s.refetches
  spaced : s.begun.IsChain Spaced
  last : s.locked = none → s.last = s.refetches.getLast?.map (·.started)
  readable : (∀ login ∈ s.logins, Readable login.now) ∧ ∀ t ∈ s.last, Readable t
  holder : ∀ i, s.locked = some i → ∃ login, s.logins[i]? = some login ∧ login.stage.fetches = true
  known : ∀ i login, s.logins[i]? = some login → Known unknown discovered s i login

section
variable {unknown : List κ → τ → Bool} {discovered : List κ} {s s' : State κ τ} {i : ℕ} {login : Login κ τ}

theorem since_lt {t at_ : Timestamp} (ht : Readable t) (hat : Readable at_) :
    t.since at_ < jwksRefetchMinIntervalSecs ↔ t.secs < at_.secs + jwksRefetchMinIntervalSecs := by
  obtain ⟨h₀, h₁⟩ := ht
  obtain ⟨h₂, h₃⟩ := hat
  have hexact : Int.bmod (t.secs - at_.secs) (2 ^ 64) = t.secs - at_.secs :=
    Int.bmod_eq_of_le (by omega) (by omega)
  unfold Timestamp.since jwksRefetchMinIntervalSecs
  rw [hexact]
  dsimp only
  split_ifs <;> omega

theorem holds_concat (refetches : List (Refetch κ)) (r : Refetch κ) :
    holds discovered (refetches ++ [r]) = match r.answer with
      | some (key :: keys) => key :: keys
      | _ => holds discovered refetches := by
  simp [holds]

/-- One more refetch leaves what a look found. -/
theorem Looked.concat {refetches : List (Refetch κ)} {first : Option ℕ} {r : Refetch κ}
    (h : Looked unknown discovered refetches login first)
    (hspaced : ∀ r₀, refetches.getLast? = some r₀ → Spaced r₀.started r.started) :
    Looked unknown discovered (refetches ++ [r]) login first := by
  cases first with
  | none =>
    obtain ⟨r₀, hr₀, hrecent⟩ := h
    refine ⟨r, by simp, ?_⟩
    have hlate := hspaced r₀ hr₀
    unfold Spaced at hlate
    unfold Recent at hrecent ⊢
    omega
  | some first =>
    obtain ⟨hle, hfound⟩ := h
    refine ⟨by simp only [List.length_append]; omega, ?_⟩
    rwa [List.take_append_of_le_length hle]

/-- What another login's step leaves known. -/
theorem Known.other (h : Known unknown discovered s i login)
    (hlocked : s.locked = some i → s'.locked = some i ∧ s'.last = s.last)
    (hfree : s.locked ≠ some i → s'.locked ≠ some i)
    (hrefetches : s'.refetches = s.refetches ∨ ∃ r, s'.refetches = s.refetches ++ [r] ∧
      ∀ r₀, s.refetches.getLast? = some r₀ → Spaced r₀.started r.started) :
    Known unknown discovered s' i login := by
  unfold Known at h ⊢
  cases hstage : login.stage with
  | exchanged | locking | dropped =>
    rw [hstage] at h
    exact hfree h
  | fetching | answered =>
    rw [hstage] at h
    obtain ⟨hlock, hlast⟩ := hlocked h.1
    exact ⟨hlock, hlast.trans h.2⟩
  | verifying first =>
    rw [hstage] at h
    obtain ⟨hno, hlooked⟩ := h
    refine ⟨hfree hno, ?_⟩
    rcases hrefetches with hsame | ⟨r, hmore, hspaced⟩
    · exact hsame ▸ hlooked
    · exact hmore ▸ hlooked.concat hspaced
  | done first missed after =>
    rw [hstage] at h
    obtain ⟨hno, hafter, hmissed⟩ := h
    rcases hrefetches with hsame | ⟨r, hmore, -⟩
    · rw [hsame]
      exact ⟨hfree hno, hafter, hmissed⟩
    · have htake : s'.refetches.take after = s.refetches.take after := by
        rw [hmore, List.take_append_of_le_length hafter]
      refine ⟨hfree hno, ?_, htake ▸ hmissed⟩
      rw [hmore, List.length_append]
      omega

/-- **One login takes a step.** -/
theorem Tidy.update (h : Tidy unknown discovered s) (hi : s.logins[i]? = some login) {stage : Stage κ}
    (hlogins : s'.logins = s.logins.modify i fun login => { login with stage := stage })
    (hheld : s'.held = holds discovered s'.refetches)
    (hspaced : s'.begun.IsChain Spaced)
    (hlast : s'.locked = none → s'.last = s'.refetches.getLast?.map (·.started))
    (hreadable : ∀ t ∈ s'.last, Readable t)
    (hholder : ∀ j, s'.locked = some j → j = i ∧ stage.fetches = true ∨ j ≠ i ∧ s.locked = some j)
    (hother : ∀ j login, j ≠ i → Known unknown discovered s j login → Known unknown discovered s' j login)
    (hknown : Known unknown discovered s' i { login with stage := stage }) : Tidy unknown discovered s' := by
  have hat : ∀ j, s'.logins[j]? = if i = j then some { login with stage := stage } else s.logins[j]? := by
    intro j
    rw [hlogins, List.getElem?_modify]
    split_ifs with hij
    · rw [← hij, hi]
      rfl
    · exact Option.map_id_apply
  refine ⟨hheld, hspaced, hlast, ⟨fun login' hmem => ?_, hreadable⟩, fun j hj => ?_, fun j login' hj => ?_⟩
  · obtain ⟨j, hj⟩ := List.mem_iff_getElem?.1 hmem
    rw [hat] at hj
    split_ifs at hj
    · obtain rfl := Option.some.inj hj
      exact h.readable.1 login (List.mem_of_getElem? hi)
    · exact h.readable.1 login' (List.mem_of_getElem? hj)
  · rcases hholder j hj with ⟨rfl, hfetches⟩ | ⟨hne, hlocked⟩
    · exact ⟨_, by rw [hat, if_pos rfl], hfetches⟩
    · obtain ⟨login', hlogin', hfetches⟩ := h.holder j hlocked
      exact ⟨login', by rw [hat, if_neg hne.symm, hlogin'], hfetches⟩
  · rw [hat] at hj
    split_ifs at hj with hij
    · obtain rfl := Option.some.inj hj
      exact hij ▸ hknown
    · exact hother j login' (Ne.symm hij) (h.known j login' hj)

/-- A stage of one login, and nothing else. -/
theorem Tidy.stage (h : Tidy unknown discovered s) (hi : s.logins[i]? = some login) {stage : Stage κ}
    (hfetches : stage.fetches = login.stage.fetches)
    (hknown : Known unknown discovered s i { login with stage := stage }) : Tidy unknown discovered (s.set i stage) := by
  refine h.update hi rfl h.held h.spaced h.last h.readable.2 (fun j hj => ?_) (fun j login' _ hj => hj) hknown
  by_cases hji : j = i
  · obtain ⟨login', hlogin', hyes⟩ := h.holder j hj
    rw [hji, hi] at hlogin'
    obtain rfl := Option.some.inj hlogin'
    exact Or.inl ⟨hji, hfetches.trans hyes⟩
  · exact Or.inr ⟨hji, hj⟩

/-- Who fetches has the lock. -/
theorem Tidy.fetches (h : Tidy unknown discovered s) (hi : s.logins[i]? = some login)
    (hfetches : login.stage.fetches = true) : s.locked = some i ∧ s.last = some login.now := by
  have hknown := h.known i login hi
  unfold Known at hknown
  cases hstage : login.stage with
  | fetching | answered =>
    rw [hstage] at hknown
    exact hknown
  | exchanged | locking | verifying | done | dropped =>
    rw [hstage] at hfetches
    cases hfetches

/-- Who does not fetch has not. -/
theorem Tidy.free (h : Tidy unknown discovered s) (hi : s.logins[i]? = some login)
    (hno : login.stage.fetches = false) : s.locked ≠ some i := by
  intro hlocked
  obtain ⟨login', hi', hfetches⟩ := h.holder i hlocked
  rw [hi] at hi'
  obtain rfl := Option.some.inj hi'
  rw [hno] at hfetches
  cases hfetches

/-- The last of a chain. -/
theorem spaced_last {refetches : List (Refetch κ)} {t : Timestamp}
    (h : (refetches.map (·.started) ++ [t]).IsChain Spaced) {r : Refetch κ} (hr : refetches.getLast? = some r) :
    Spaced r.started t := by
  rw [List.isChain_append] at h
  exact h.2.2 r.started (by simp [hr]) t rfl

/-- **The lock is released.** -/
theorem Tidy.release (h : Tidy unknown discovered s) (hi : s.logins[i]? = some login)
    (hfetches : login.stage.fetches = true) {answer : Option (List κ)} {held : List κ}
    (hheld : held = holds discovered (s.refetches ++ [⟨login.now, answer⟩])) {stage : Stage κ}
    (hstage : stage = .verifying none ∨ stage = .dropped) :
    Tidy unknown discovered (({ s with held := held }.release login answer).set i stage) := by
  obtain ⟨hlocked, hlast⟩ := h.fetches hi hfetches
  have hspaced : (s.refetches.map (·.started) ++ [login.now]).IsChain Spaced := by
    have hbegun := h.spaced
    rwa [State.begun, hlocked, if_neg (Option.some_ne_none i), hlast] at hbegun
  refine h.update hi rfl hheld ?_ ?_ h.readable.2 nofun (fun j login' hj hknown => hknown.other ?_ nofun ?_) ?_
  · simpa [State.begun, State.release, State.set] using hspaced
  · intro
    simpa [State.release, State.set] using hlast
  · intro hlock
    rw [hlocked] at hlock
    exact absurd (Option.some.inj hlock).symm hj
  · exact Or.inr ⟨⟨login.now, answer⟩, rfl, fun r hr => spaced_last hspaced hr⟩
  · have hrecent : Recent login.now ⟨login.now, answer⟩ := by
      unfold Recent jwksRefetchMinIntervalSecs
      dsimp only
      omega
    rcases hstage with rfl | rfl
    · exact ⟨nofun, ⟨login.now, answer⟩, by simp [State.release, State.set], hrecent⟩
    · exact nofun

/-- The lock is asked for. -/
theorem Tidy.lock (h : Tidy unknown discovered s) (hi : s.logins[i]? = some login) (hstage : login.stage = .locking)
    (hlocked : s.locked = none) : Tidy unknown discovered (s.lock i login) := by
  have hfree : s.locked ≠ some i := by
    rw [hlocked]
    exact nofun
  have hnow := h.readable.1 login (List.mem_of_getElem? hi)
  have hlast := h.last hlocked
  unfold State.lock
  split_ifs with hthrottled
  · obtain ⟨at_, hat, hsince⟩ := (Option.any_eq_true _ _).1 hthrottled
    rw [hlast] at hat
    obtain ⟨r, hr, rfl⟩ := Option.map_eq_some_iff.1 hat
    have hread := h.readable.2 r.started (by rw [hlast, hr]; rfl)
    refine h.stage hi (by rw [hstage]; rfl) ⟨hfree, r, hr, ?_⟩
    exact (since_lt hnow hread).1 (of_decide_eq_true hsince)
  · refine h.update hi rfl h.held ?_ nofun ?_ ?_ ?_ ⟨rfl, rfl⟩
    · have hbegun := h.spaced
      rw [State.begun, if_pos hlocked, List.append_nil] at hbegun
      change (s.refetches.map (·.started) ++ [login.now]).IsChain Spaced
      rw [List.isChain_append]
      refine ⟨hbegun, List.isChain_singleton _, ?_⟩
      rintro t ht _ ⟨⟩
      rw [List.getLast?_map] at ht
      have hsome : s.last = some t := hlast.trans ht
      rw [hsome] at hthrottled
      have hfar : ¬ login.now.since t < jwksRefetchMinIntervalSecs := by simpa using hthrottled
      rw [since_lt hnow (h.readable.2 t hsome)] at hfar
      exact not_lt.1 hfar
    · rintro _ ⟨⟩
      exact hnow
    · rintro j ⟨⟩
      exact Or.inl ⟨rfl, rfl⟩
    · intro j login' hj hknown
      refine hknown.other ?_ ?_ (Or.inl rfl)
      · intro hlock
        rw [hlocked] at hlock
        cases hlock
      · rintro - ⟨⟩
        exact hj rfl

/-- **Every step keeps the client tidy.** -/
theorem Tidy.step (h : Tidy unknown discovered s) (action : Action κ τ)
    (hread : ∀ token now, action = .exchange token now → Readable now) :
    Tidy unknown discovered (s.step unknown action) := by
  cases action with
  | exchange token now =>
    have hat : ∀ j login', (s.logins ++ [⟨token, now, .exchanged⟩])[j]? = some login' →
        s.logins[j]? = some login' ∨ j = s.logins.length ∧ login' = ⟨token, now, .exchanged⟩ := by
      intro j login' hj
      rcases lt_trichotomy j s.logins.length with hlt | rfl | hgt
      · exact Or.inl (by rwa [List.getElem?_append_left hlt] at hj)
      · rw [List.getElem?_concat_length] at hj
        exact Or.inr ⟨rfl, (Option.some.inj hj).symm⟩
      · rw [List.getElem?_eq_none (by simp; omega)] at hj
        cases hj
    refine ⟨h.held, h.spaced, h.last, ⟨fun login' hmem => ?_, h.readable.2⟩, fun j hj => ?_, fun j login' hj => ?_⟩
    · rcases List.mem_append.1 hmem with hmem | hmem
      · exact h.readable.1 login' hmem
      · obtain rfl := List.mem_singleton.1 hmem
        exact hread token now rfl
    · obtain ⟨login', hlogin', hfetches⟩ := h.holder j hj
      exact ⟨login', (List.getElem?_append_left (List.getElem?_eq_some_iff.1 hlogin').1).trans hlogin', hfetches⟩
    · rcases hat j login' hj with hold | ⟨rfl, rfl⟩
      · exact h.known j login' hold
      · intro hlocked
        obtain ⟨login', hlogin', -⟩ := h.holder _ hlocked
        exact absurd (List.getElem?_eq_some_iff.1 hlogin').1 (lt_irrefl _)
  | verify i =>
    unfold State.step
    dsimp only
    split
    case h_1 token now hi =>
      have hfree : s.locked ≠ some i := h.known i _ hi
      split_ifs with hunknown
      · exact h.stage hi rfl hfree
      · refine h.stage hi rfl ⟨hfree, le_rfl, ?_⟩
        rw [List.take_length, ← h.held]
        exact Bool.eq_false_iff.2 hunknown
    case h_2 => exact h
  | lock i =>
    unfold State.step
    dsimp only
    split
    case h_1 token now hi =>
      split_ifs with hlocked
      · exact h.lock hi rfl hlocked
      · exact h
    case h_2 => exact h
  | answer i keys =>
    unfold State.step
    dsimp only
    split
    case h_1 token now hi =>
      have hfetches := h.fetches hi rfl
      exact h.stage hi rfl hfetches
    case h_2 => exact h
  | swap i =>
    unfold State.step
    dsimp only
    split
    case h_1 token now keys hi =>
      rcases keys with _ | _ | ⟨key, keys⟩
      · exact h.release hi rfl (by rw [holds_concat]; exact h.held) (Or.inl rfl)
      · exact h.release hi rfl (by rw [holds_concat]; exact h.held) (Or.inl rfl)
      · exact h.release hi rfl (by rw [holds_concat]) (Or.inl rfl)
    case h_2 => exact h
  | verifyAgain i =>
    unfold State.step
    dsimp only
    split
    case h_1 token now first hi =>
      obtain ⟨hfree, hlooked⟩ := h.known i _ hi
      refine h.stage hi rfl ⟨hfree, le_rfl, ?_, ?_⟩
      · rw [List.take_length, h.held]
      · rwa [List.take_length]
    case h_2 => exact h
  | drop i =>
    unfold State.step
    dsimp only
    split
    case h_1 => exact h
    case h_2 => exact h
    case h_3 login _ hi =>
      split_ifs with hfetches
      · exact h.release hi hfetches (by rw [holds_concat]; exact h.held) (Or.inr rfl)
      · have hno : login.stage.fetches = false := Bool.eq_false_iff.2 hfetches
        exact h.stage hi hno.symm (h.free hi hno)

end

/-- Two logins with a new key and one with an unknown one: one refetch serves the
    three, and another comes after the interval. -/
def rotated : List (Action ℕ ℕ) :=
  [.exchange 2 ⟨1000⟩, .exchange 2 ⟨1001⟩, .exchange 9 ⟨1002⟩, .verify 0, .verify 1, .verify 2, .lock 0, .lock 1,
   .answer 0 (some [2, 3]), .swap 0, .lock 1, .lock 2, .verifyAgain 0, .verifyAgain 1, .verifyAgain 2,
   .exchange 9 ⟨1300⟩, .verify 3, .lock 3, .answer 3 none, .swap 3, .verifyAgain 3]

end ProviderKeys

end SessionBroker
