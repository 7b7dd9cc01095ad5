/-
  The promises of the desktop sign-in handoff.

  * `step_move`: what a step can do to the two maps;
  * `Desk.Sound`: what is held comes from the last event of its attempt;
  * `desktop_handoff`: a run keeps the promises exactly if no attempt ends
    again while its own outcome is the one that has to make room.
-/
import SessionBroker.Handoff

namespace SessionBroker

open Table Runs

namespace Desktop

/-! ## What a step does -/

section
variable {ν : Type} {order : String → ℕ} {now : ℤ} {map : Attempts ν} {e : Holding ν}

theorem Holding.live_lt (h : e.live now = true) (hat : -2 ^ 63 ≤ e.at_) :
    now < e.at_ + attemptTtlSecs := by
  simp only [Holding.live, decide_eq_true_eq] at h
  have hle : Int.bmod (e.at_ + attemptTtlSecs) (2 ^ 64) ≤ e.at_ + attemptTtlSecs := by
    unfold attemptTtlSecs
    rw [Int.bmod_def]
    have hnonneg := Int.emod_lt_of_pos (e.at_ + 300) (show (0 : ℤ) < 2 ^ 64 by decide)
    omega
  omega

theorem Holding.age_attempt (order : String → ℕ) {e e' : Holding ν} (h : e.age order = e'.age order) :
    e.attempt = e'.attempt := by
  have hpair := toLex.injective h
  exact congrArg Prod.snd (toLex.injective (congrArg Prod.snd hpair))

theorem mem_trim (h : e ∈ (trim order now map).rows) : e ∈ map.rows :=
  (Keyed.mem_retain.1 (Keyed.mem_of_mem_evict h)).1

theorem length_trim_lt (order : String → ℕ) (now : ℤ) (map : Attempts ν) :
    (trim order now map).rows.length < attemptsHeld :=
  Keyed.length_evict_lt (by decide) le_rfl

/-- **What `trim` leaves** of a map within its bound. -/
theorem mem_trim_iff (hmap : map.rows.length ≤ attemptsHeld) (he : e ∈ map.rows)
    (hlive : e.live now = true) : e ∈ (trim order now map).rows ↔
      (map.retain (Holding.live now)).rows.length < attemptsHeld ∨
        ∃ other ∈ map.rows, other.live now = true ∧ other.age order < e.age order := by
  have hkept := Keyed.length_retain_le (Holding.live now) map
  have hevict := Keyed.mem_evict_iff (m := map.retain (Holding.live now)) (by decide)
    (hkept.trans hmap) le_rfl (fun _ _ => Holding.age_attempt order)
    (Keyed.mem_retain.2 ⟨he, hlive⟩)
  unfold trim
  rw [hevict]
  simp [and_assoc]

end

section
variable {env : DesktopEnv} {held : Held} {op : HandoffOp} {order : String → ℕ}

/-- What a step can do to the two maps, and the event that says so. -/
inductive Move (env : DesktopEnv) (held : Held) (op : HandoffOp) : Held → Option Event → Prop
  | stays : Move env held op held none
  | loggedIn {attempt sid : String} : Move env held op
      (noteLogin op.order attempt sid op.now.secs held)
      (some (.loggedIn ⟨attempt, sid, op.now.secs⟩))
  | ended {attempt : String} {outcome : Outcome} (hends : op.ends env held = some attempt)
      (hmint : ∀ token expiresIn tenant roles, outcome = .complete token expiresIn tenant roles →
        ∃ e ∈ held.logins.rows, e.attempt = attempt ∧ e.live op.now.secs = true ∧
          op.Signed e.value token) :
      Move env held op (finish op.order attempt outcome op.now.secs held).1
        (some (.ended ⟨attempt, outcome, op.now.secs⟩
          (finish op.order attempt outcome op.now.secs held).2))
  | handed {e : Holding Outcome} (he : e ∈ held.outcomes.rows) (hlive : e.live op.now.secs = true) :
      Move env held op { held with outcomes := held.outcomes.remove e.attempt }
        (some (.handed e.attempt e.value))
  | lapsed {attempt : String} :
      Move env held op { held with outcomes := held.outcomes.remove attempt } none

theorem failure_ne_complete {code detail token tenant : String} {expiresIn : ℕ} {roles : List String} :
    failure code detail ≠ .complete token expiresIn tenant roles := nofun

/-- A session that passes is the one of a login that is still fresh. -/
theorem desktopSession_ok {req : DesktopRequest} {attempt : String} {sm : SessionMeta}
    (h : desktopSession env held req = .ok (attempt, sm)) :
    ∃ e ∈ held.logins.rows, e.attempt = attempt ∧ e.live req.now.secs = true ∧ e.value = sm.sid := by
  unfold desktopSession at h
  cases hattempt : req.attempt.filter isAttempt with
  | none =>
    rw [hattempt] at h
    cases h
  | some named =>
    rw [hattempt] at h
    cases hcookie : cookie req.cookies (sessionCookieName env.http.secure) with
    | none =>
      rw [hcookie] at h
      cases h
    | some value =>
      simp only [hcookie] at h
      split at h
      · cases hmeta : req.sessions.metaFor (env.hash value) with
        | none =>
          rw [hmeta] at h
          cases h
        | some found =>
          rw [hmeta] at h
          dsimp only at h
          split_ifs at h with hfresh
          obtain ⟨rfl, rfl⟩ := Prod.mk.inj (Except.ok.inj h)
          obtain ⟨e, he, hcheck⟩ := (Option.any_eq_true _ _).1 hfresh
          simp only [Bool.and_eq_true, decide_eq_true_eq] at hcheck
          exact ⟨e, (Keyed.find?_some he).1, (Keyed.find?_some he).2, hcheck.2, hcheck.1⟩
      · cases h

/-- A Complete outcome is a token for the session. -/
theorem desktopOutcome_complete {req : DesktopRequest} {sm : SessionMeta} {token tenant : String}
    {expiresIn : ℕ} {roles : List String}
    (h : (desktopOutcome env req sm).1 = .complete token expiresIn tenant roles) :
    ∃ claims kid, req.signWithKid claims = some (kid, token) ∧ claims.sid = sm.sid := by
  unfold desktopOutcome at h
  split at h
  · cases h
  · split at h
    · split at h
      · rename_i hmint
        obtain ⟨-, -, -, kid, hsign⟩ := mint_ok hmint
        cases h
        exact ⟨_, kid, hsign, rfl⟩
      · cases h
    · cases h

/-- **What a step does.** -/
theorem step_move (env : DesktopEnv) (held : Held) (op : HandoffOp) :
    Move env held op (step env held op).held (step env held op).event := by
  cases op with
  | login returnTo sid now order =>
    cases hof : attemptOf returnTo with
    | none =>
      simp only [step, hof]
      exact .stays
    | some attempt =>
      simp only [step, hof]
      exact .loggedIn
  | failure returnTo code detail now order =>
    cases hof : attemptOf returnTo with
    | none =>
      simp only [step, hof]
      exact .stays
    | some attempt =>
      simp only [step, hof]
      exact .ended hof fun _ _ _ _ h => absurd h failure_ne_complete
  | desktop req order =>
    cases hs : desktopSession env held req with
    | error page =>
      simp only [step, desktop, hs]
      exact .stays
    | ok found =>
      obtain ⟨attempt, sm⟩ := found
      have hends : HandoffOp.ends env held (.desktop req order) = some attempt := by
        rw [HandoffOp.ends, hs]
        rfl
      simp only [step, desktop, hs]
      refine .ended hends fun token expiresIn tenant roles hcomplete => ?_
      obtain ⟨e, he, hattempt, hlive, hsid⟩ := desktopSession_ok hs
      obtain ⟨claims, kid, hsign, hclaims⟩ := desktopOutcome_complete hcomplete
      exact ⟨e, he, hattempt, hlive, req, order, rfl, claims, kid, hsign, hclaims.trans hsid.symm⟩
  | redeem req =>
    rw [step, redeemHandler]
    cases authorised env req with
    | error refusal => exact .stays
    | ok _ =>
      cases req.body with
      | none => exact .stays
      | some body =>
        obtain ⟨attempt, verifier⟩ := body
        dsimp only
        split_ifs
        · rw [redeem]
          cases hfind : held.outcomes.find? attempt with
          | none => exact .stays
          | some e =>
            obtain ⟨he, rfl⟩ := Keyed.find?_some hfind
            dsimp only
            split_ifs with hlive
            · exact .handed he hlive
            · exact .lapsed
        · exact .stays

/-- A step that ends an attempt comes with an ending for it. -/
theorem step_ends {attempt : String} (h : op.ends env held = some attempt) :
    ∃ outcome, (step env held op).held = (finish op.order attempt outcome op.now.secs held).1 ∧
      (step env held op).event = some (.ended ⟨attempt, outcome, op.now.secs⟩
        (finish op.order attempt outcome op.now.secs held).2) := by
  cases op with
  | login | redeem => cases h
  | failure returnTo code detail now order =>
    have hof : attemptOf returnTo = some attempt := h
    refine ⟨failure code detail, ?_⟩
    simp only [step, hof]
    exact ⟨rfl, rfl⟩
  | desktop req order =>
    rw [HandoffOp.ends] at h
    cases hs : desktopSession env held req with
    | error page =>
      rw [hs] at h
      cases h
    | ok found =>
      rw [hs] at h
      cases h
      simp only [step, desktop, hs]
      exact ⟨_, rfl, rfl⟩

theorem finish_eq (order : String → ℕ) (attempt : String) (outcome : Outcome) (now : ℤ)
    (held : Held) : ((trim order now held.outcomes).contains attempt = true ∧
        finish order attempt outcome now held =
          (⟨held.logins, trim order now held.outcomes⟩, false)) ∨
      ((∀ e ∈ (trim order now held.outcomes).rows, e.attempt ≠ attempt) ∧
        finish order attempt outcome now held =
          (⟨held.logins.remove attempt,
            (trim order now held.outcomes).insert ⟨attempt, outcome, now⟩⟩, true)) := by
  unfold finish
  dsimp only
  split_ifs with h
  · exact Or.inl ⟨h, rfl⟩
  · refine Or.inr ⟨fun e he hattempt => h ?_, rfl⟩
    exact Keyed.contains_iff.2 ⟨e, he, hattempt⟩

end

/-! ## What is held comes from the last event -/

/-- Each row of the map is what the events say last of its attempt. -/
def Traced {ν β : Type} (tells : String → Event → Option β) (row : Holding ν → β)
    (events : List Event) (map : Attempts ν) : Prop :=
  ∀ e ∈ map.rows, -2 ^ 63 ≤ e.at_ ∧ (events.filterMap (tells e.attempt)).getLast? = some (row e)

theorem Traced.concat {ν β : Type} {tells : String → Event → Option β} {row : Holding ν → β}
    {events : List Event} {map map' : Attempts ν} {event : Option Event}
    (h : Traced tells row events map)
    (hrows : ∀ e ∈ map'.rows, (e ∈ map.rows ∧ event.bind (tells e.attempt) = none) ∨
      (-2 ^ 63 ≤ e.at_ ∧ event.bind (tells e.attempt) = some (row e))) :
    Traced tells row (events ++ event.toList) map' := by
  intro e he
  have hlast : ((events ++ event.toList).filterMap (tells e.attempt)).getLast? =
      (event.bind (tells e.attempt)).or (events.filterMap (tells e.attempt)).getLast? := by
    rw [List.filterMap_append, List.getLast?_append]
    cases event with
    | none => rfl
    | some event => cases htells : tells e.attempt event <;> simp [htells]
  rcases hrows e he with ⟨hold, hnone⟩ | ⟨hat, hsome⟩
  · rw [hlast, hnone]
    exact h e hold
  · rw [hlast, hsome]
    exact ⟨hat, rfl⟩

structure Desk.Sound (d : Desk) : Prop where
  logins : Traced Event.login? id d.events d.held.logins
  outcomes : Traced Event.leaves some d.events d.held.outcomes
  fewLogins : d.held.logins.rows.length ≤ attemptsHeld
  fewOutcomes : d.held.outcomes.rows.length ≤ attemptsHeld

section
variable {env : DesktopEnv} {d : Desk} {op : HandoffOp} {held : Held} {event : Option Event}

theorem length_insert_trim_le {ν : Type} (order : String → ℕ) (now : ℤ) (map : Attempts ν)
    (e : Holding ν) : ((trim order now map).insert e).rows.length ≤ attemptsHeld := by
  have hle := Keyed.length_insert_le (trim order now map) e
  have hlt := length_trim_lt order now map
  omega

/-- **A move keeps the maps sound.** -/
theorem Desk.Sound.move (h : d.Sound) (hnow : op.now.I64) (hmove : Move env d.held op held event) :
    Desk.Sound ⟨held, d.events ++ event.toList⟩ := by
  have hlogins : ∀ {event : Option Event} {map : Attempts String},
      (∀ e ∈ map.rows, e ∈ d.held.logins.rows) → (∀ a, event.bind (Event.login? a) = none) →
      Traced Event.login? id (d.events ++ event.toList) map :=
    fun hrows hsilent => h.logins.concat fun e he => Or.inl ⟨hrows e he, hsilent _⟩
  have houtcomes : ∀ {event : Option Event} {map : Attempts Outcome},
      (∀ e ∈ map.rows, e ∈ d.held.outcomes.rows ∧ event.bind (Event.leaves e.attempt) = none) →
      Traced Event.leaves some (d.events ++ event.toList) map :=
    fun hrows => h.outcomes.concat fun e he => Or.inl (hrows e he)
  cases hmove with
  | stays => exact ⟨hlogins (fun _ he => he) (fun _ => rfl), houtcomes fun _ he => ⟨he, rfl⟩,
      h.fewLogins, h.fewOutcomes⟩
  | @loggedIn attempt sid =>
    refine ⟨h.logins.concat fun e he => ?_, houtcomes fun _ he => ⟨he, rfl⟩,
      length_insert_trim_le .., h.fewOutcomes⟩
    rcases Keyed.mem_insert.1 he with ⟨he, hne⟩ | rfl
    · exact Or.inl ⟨mem_trim he, if_neg (Ne.symm hne)⟩
    · exact Or.inr ⟨hnow.1, if_pos rfl⟩
  | @ended attempt outcome hends hmint =>
    rcases finish_eq op.order attempt outcome op.now.secs d.held with ⟨-, heq⟩ | ⟨hnone, heq⟩
    · rw [heq]
      exact ⟨hlogins (fun _ he => he) fun _ => rfl, houtcomes fun _ he => ⟨mem_trim he, rfl⟩,
        h.fewLogins, (length_trim_lt ..).le⟩
    · rw [heq]
      refine ⟨hlogins (fun _ he => (Keyed.mem_remove.1 he).1) fun _ => rfl,
        h.outcomes.concat fun e he => ?_, (Keyed.length_retain_le ..).trans h.fewLogins,
        length_insert_trim_le ..⟩
      rcases Keyed.mem_insert.1 he with ⟨he, hne⟩ | rfl
      · exact Or.inl ⟨mem_trim he, if_neg fun h => hne h.2.symm⟩
      · exact Or.inr ⟨hnow.1, if_pos ⟨rfl, rfl⟩⟩
  | @handed e he hlive =>
    refine ⟨hlogins (fun _ he => he) fun _ => rfl, houtcomes fun e' he' => ?_, h.fewLogins,
      (Keyed.length_retain_le ..).trans h.fewOutcomes⟩
    obtain ⟨hmem, hne⟩ := Keyed.mem_remove.1 he'
    exact ⟨hmem, if_neg (Ne.symm hne)⟩
  | lapsed =>
    exact ⟨hlogins (fun _ he => he) fun _ => rfl,
      houtcomes fun _ he => ⟨(Keyed.mem_remove.1 he).1, rfl⟩, h.fewLogins,
      (Keyed.length_retain_le ..).trans h.fewOutcomes⟩

theorem desk_concat (ops : List HandoffOp) (op : HandoffOp) :
    desk env (ops ++ [op]) = (desk env ops).next env op := run_concat ops op

/-- **The maps are sound after any steps.** -/
theorem desk_sound (env : DesktopEnv) {ops : List HandoffOp} (hnow : ∀ op ∈ ops, op.now.I64) :
    (desk env ops).Sound := by
  induction ops using List.reverseRecOn with
  | nil => exact ⟨nofun, nofun, Nat.zero_le _, Nat.zero_le _⟩
  | append_singleton ops op ih =>
    have hbefore := ih fun op' hop => hnow op' (List.mem_append_left _ hop)
    rw [desk_concat]
    exact hbefore.move (hnow op (by simp)) (step_move ..)

/-- An outcome stands where `trim` leaves it. -/
theorem stands_iff (order : String → ℕ) (e : Holding Outcome) (outcome : Outcome) (now : ℤ)
    (held : Held) : ((finish order e.attempt outcome now held).2 = false ∧
      e ∈ (finish order e.attempt outcome now held).1.outcomes.rows) ↔
      e ∈ (trim order now held.outcomes).rows := by
  rcases finish_eq order e.attempt outcome now held with ⟨-, heq⟩ | ⟨hnone, heq⟩
  · rw [heq]
    exact and_iff_right rfl
  · rw [heq]
    exact ⟨fun h => absurd h.1 (Bool.false_ne_true ∘ Eq.symm), fun h => absurd rfl (hnone e h)⟩

/-- **The promises of one step.** -/
theorem promised_iff (h : d.Sound) (hnow : op.now.I64) :
    Promised env d op ↔ Spared env d.held op := by
  constructor
  · rintro hp attempt hends e he rfl hlive
    obtain ⟨outcome, hheld, hevent⟩ := step_ends hends
    have hstands := hp.stands e he hlive _ _ hevent rfl
    rw [hheld] at hstands
    exact (mem_trim_iff h.fewOutcomes he hlive).1 ((stands_iff ..).1 hstands)
  · intro hspared
    have hmove := step_move env d.held op
    have hnext := h.move hnow hmove
    refine ⟨fun e recorded token expiresIn tenant roles hevent hvalue => ?_,
      fun attempt outcome hevent => ?_, fun e he hlive e' recorded hevent hsame => ?_,
      hnext.fewLogins, hnext.fewOutcomes⟩
    · rw [hevent] at hmove
      generalize (step env d.held op).held = held at hmove
      cases hmove with
      | ended _ hmint =>
        obtain ⟨login, hmem, hattempt, hlive, hsigned⟩ := hmint token expiresIn tenant roles hvalue
        obtain ⟨hat, hlast⟩ := h.logins login hmem
        rw [hattempt] at hlast
        refine ⟨login.value, login.at_, hsigned, ?_, Holding.live_lt hlive hat⟩
        rw [hlast, ← hattempt]
        rfl
    · rw [hevent] at hmove
      generalize (step env d.held op).held = held at hmove
      cases hmove with
      | @handed e he hlive =>
        obtain ⟨hat, hlast⟩ := h.outcomes e he
        exact ⟨e.at_, hlast, Holding.live_lt hlive hat⟩
    · obtain ⟨attempt, hends, hattempt⟩ : ∃ attempt, op.ends env d.held = some attempt ∧
          attempt = e'.attempt := by
        rw [hevent] at hmove
        generalize (step env d.held op).held = held at hmove
        cases hmove with
        | ended hends _ => exact ⟨_, hends, rfl⟩
      obtain rfl := hattempt.trans hsame
      obtain ⟨outcome, hheld, hended⟩ := step_ends hends
      have hkept := (mem_trim_iff h.fewOutcomes he hlive).2 (hspared _ hends e he rfl hlive)
      have hstands := (stands_iff _ _ outcome _ _).2 hkept
      rw [hevent, Option.some.injEq, Event.ended.injEq] at hended
      rw [hheld, hended.2]
      exact hstands

/-- **The handoff**, over any steps: the promises are kept exactly if no step
    ends an attempt again whose own outcome is the one to make room. -/
theorem desktop_handoff {ops : List HandoffOp} (hnow : ∀ op ∈ ops, op.now.I64) :
    (∀ before op after, ops = before ++ op :: after → Promised env (desk env before) op) ↔
      ∀ before op after, ops = before ++ op :: after → Spared env (desk env before).held op := by
  have hstep : ∀ before op after, ops = before ++ op :: after →
      (Promised env (desk env before) op ↔ Spared env (desk env before).held op) := by
    rintro before op after rfl
    refine promised_iff (desk_sound env fun op' hop => hnow op' ?_) (hnow op ?_)
    · exact List.mem_append_left _ hop
    · exact List.mem_append_right _ List.mem_cons_self
  exact forall₄_congr hstep

end

namespace Collected

open GrantedUser (bytes)

def attempt : String := "iMnq5o6zALKXGivsnlom_0F5_WYda32GHkxlV7mq7hQ"

def env : DesktopEnv where
  hash := GrantedUser.env.hash
  challenge verifier := if verifier = "verifier" then attempt else ""
  http := GrantedUser.http
  issuer := some { GrantedUser.settings with defaultUserTenant := none }
  adminKey := some "key"

/-- A login, the page it lands on, and the app that collects the outcome. -/
def ops : List HandoffOp :=
  [.login (some (pathPrefix ++ attempt)) "s" ⟨0⟩ fun _ => 0,
    .desktop ⟨some attempt, [bytes "broker_session=t"], GrantedUser.sessions, GrantedUser.reads,
      GrantedUser.env.signWithKid, ⟨40⟩, ⟨40⟩, "j"⟩ fun _ => 0,
    .redeem ⟨some (bytes "Bearer key"), none, some (attempt, "verifier"), ⟨50⟩⟩]

end Collected

open Collected in
theorem desktop_handoff_collected :
    (desk env ops).events.getLast? =
        some (.handed attempt (.complete "alice@acme" 3600 "acme" ["editor"])) ∧
      ∀ before op after, ops = before ++ op :: after → Promised env (desk env before) op := by
  have hnow : ∀ op ∈ ops, op.now.I64 := by
    simp only [ops, List.forall_mem_cons, List.not_mem_nil, IsEmpty.forall_iff, implies_true, and_true]
    exact ⟨⟨by decide, by decide⟩, ⟨by decide, by decide⟩, by decide, by decide⟩
  refine ⟨by decide +kernel, (desktop_handoff hnow).2 fun before op after h => ?_⟩
  -- of the three steps only the page ends an attempt, and nothing is held by then
  rcases before with _ | ⟨first, _ | ⟨second, _ | ⟨third, before⟩⟩⟩
  · cases h
    exact nofun
  · cases h
    intro attempt hends e he
    have hrows : (desk env (ops.take 1)).held.outcomes.rows = [] := by decide +kernel
    have hmem : e ∈ (desk env (ops.take 1)).held.outcomes.rows := he
    rw [hrows] at hmem
    cases hmem
  · cases h
    exact nofun
  · simp [ops] at h

/-! ## An outcome that makes room for its own successor -/

theorem attemptOf_prefix {attempt : String} (h : isAttempt attempt = true) :
    attemptOf (some (pathPrefix ++ attempt)) = some attempt := by
  have hstrip : stripPrefix pathPrefix (pathPrefix ++ attempt) = some attempt :=
    stripPrefix_eq_some.2 (String.toList_append ..)
  rw [attemptOf, Option.bind_some, hstrip, Option.filter_some, if_pos h]

/-- Letters and digits, one byte each. -/
theorem isAttempt_ofList {l : List Char} (hlen : l.length = attemptLen)
    (h : ∀ c ∈ l, c.isAlphanum = true ∧ c.utf8Size = 1) : isAttempt (.ofList l) = true := by
  have hsize : ∀ l : List Char, (∀ c ∈ l, c.isAlphanum = true ∧ c.utf8Size = 1) →
      String.utf8Len l = l.length := by
    intro l h
    induction l with
    | nil => rfl
    | cons c l ih =>
      rw [String.utf8Len_cons, ih fun c' hc => h c' (List.mem_cons_of_mem _ hc),
        (h c List.mem_cons_self).2, List.length_cons]
  rw [isAttempt, String.utf8ByteSize_ofList, hsize l h, hlen, String.toList_ofList]
  simp only [decide_true, Bool.true_and, List.all_eq_true]
  intro c hc
  rw [(h c hc).1]
  rfl

/-- A failure of each of the attempts, at one time. -/
def failures (attempts : List String) (code detail : String) (now : Timestamp)
    (order : String → ℕ) : List HandoffOp :=
  attempts.map fun attempt => .failure (some (pathPrefix ++ attempt)) code detail now order

theorem trim_of_live {ν : Type} {now : ℤ} {map : Attempts ν} (order : String → ℕ)
    (hlive : ∀ e ∈ map.rows, e.live now = true)
    (hroom : map.rows.length < attemptsHeld) : trim order now map = map := by
  rw [trim, Keyed.retain_eq_self hlive]
  exact Keyed.evict_of_lt hroom

/-- As many attempts as are held can fail one after the other. -/
theorem desk_failures (env : DesktopEnv) (attempts : List String) (code detail : String)
    (order : String → ℕ) (hvalid : ∀ attempt ∈ attempts, isAttempt attempt = true)
    (hdistinct : attempts.Nodup) (hroom : attempts.length ≤ attemptsHeld) :
    (desk env (failures attempts code detail ⟨0⟩ order)).held.outcomes.rows =
      attempts.map fun attempt => ⟨attempt, failure code detail, 0⟩ := by
  induction attempts using List.reverseRecOn with
  | nil => rfl
  | append_singleton attempts attempt ih =>
    rw [List.length_append, List.length_singleton] at hroom
    have hnew : attempt ∉ attempts := by
      rw [List.nodup_append] at hdistinct
      exact fun hmem => hdistinct.2.2 attempt hmem attempt (List.mem_singleton_self _) rfl
    have hbefore := ih (fun a ha => hvalid a (List.mem_append_left _ ha))
      (hdistinct.sublist (List.sublist_append_left ..)) (by omega)
    have hof := attemptOf_prefix (hvalid attempt (by simp))
    have hlive : ∀ e ∈ (desk env (failures attempts code detail ⟨0⟩ order)).held.outcomes.rows,
        e.live 0 = true := by
      intro e he
      rw [hbefore] at he
      obtain ⟨a, -, rfl⟩ := List.mem_map.1 he
      rfl
    have htrim := trim_of_live order hlive (by
      rw [hbefore, List.length_map]
      omega)
    have hends : (failures (attempts ++ [attempt]) code detail ⟨0⟩ order) =
        failures attempts code detail ⟨0⟩ order ++
          [.failure (some (pathPrefix ++ attempt)) code detail ⟨0⟩ order] := List.map_append
    rw [hends, desk_concat]
    simp only [Desk.next, step, hof, ending]
    rcases finish_eq order attempt (failure code detail) 0
      (desk env (failures attempts code detail ⟨0⟩ order)).held with ⟨hcontains, -⟩ | ⟨hnone, heq⟩
    · rw [htrim, Keyed.contains_iff, hbefore] at hcontains
      obtain ⟨e, he, hattempt⟩ := hcontains
      obtain ⟨a, ha, rfl⟩ := List.mem_map.1 he
      exact absurd (hattempt ▸ ha) hnew
    · rw [htrim] at hnone
      rw [heq, htrim, Keyed.insert_rows hnone, hbefore, List.map_append, List.map_singleton]

namespace Flooded

/-- The attempts of a flood. -/
def attempt (n : ℕ) : String :=
  .ofList (List.replicate 41 'A' ++ [Nat.digitChar (n / 10), Nat.digitChar (n % 10)])

def attempts : List String := (List.range attemptsHeld).map attempt

/-- The first attempt comes first in the map. -/
def order (a : String) : ℕ := if a = attempt 0 then 0 else 1

def flood : List HandoffOp :=
  failures attempts "txn_expired" "the sign-in took too long" ⟨0⟩ order

/-- The first attempt fails once more. -/
def again : HandoffOp :=
  .failure (some (pathPrefix ++ attempt 0)) "state_mismatch" "state does not match" ⟨100⟩ order

theorem isAttempt_attempt {n : ℕ} (hn : n < attemptsHeld) : isAttempt (attempt n) = true := by
  have hdigit : ∀ d < 10, (Nat.digitChar d).isAlphanum = true ∧ (Nat.digitChar d).utf8Size = 1 := by
    decide
  rw [attemptsHeld] at hn
  refine isAttempt_ofList rfl fun c hc => ?_
  rcases List.mem_append.1 hc with hc | hc
  · rw [List.eq_of_mem_replicate hc]
    exact ⟨by decide, by decide⟩
  · rcases List.mem_cons.1 hc with rfl | hc
    · exact hdigit _ (by omega)
    · rw [List.mem_singleton.1 hc]
      exact hdigit _ (by omega)

theorem nodup_attempts : attempts.Nodup := by
  have hdigit : ∀ d < 10, ∀ e < 10, Nat.digitChar d = Nat.digitChar e → d = e := by decide
  refine List.Nodup.map_on (fun n hn m hm h => ?_) List.nodup_range
  have hdigits := List.append_cancel_left (String.ofList_injective h)
  rw [List.mem_range, attemptsHeld] at hn hm
  simp only [List.cons.injEq, and_true] at hdigits
  have htens := hdigit _ (by omega) _ (by omega) hdigits.1
  have hones := hdigit _ (by omega) _ (by omega) hdigits.2
  omega

theorem flood_rows : (desk Collected.env flood).held.outcomes.rows = attempts.map fun a =>
    ⟨a, failure "txn_expired" "the sign-in took too long", 0⟩ := by
  have hlen : attempts.length ≤ attemptsHeld := by rw [attempts, List.length_map, List.length_range]
  have hvalid : ∀ a ∈ attempts, isAttempt a = true := by
    intro a ha
    obtain ⟨n, hn, rfl⟩ := List.mem_map.1 ha
    exact isAttempt_attempt (List.mem_range.1 hn)
  rw [flood, desk_failures _ _ _ _ _ hvalid nodup_attempts hlen]

/-- With as many outcomes held as there may be, a second ending of the oldest
    replaces the first. -/
theorem second_ending_replaces : (∀ op ∈ flood ++ [again], op.now.I64) ∧
    Nondecreasing (fun op => some op.now) (flood ++ [again]) ∧
    ¬ ∀ before op after, flood ++ [again] = before ++ op :: after →
      Promised Collected.env (desk Collected.env before) op := by
  have htimes : ∀ op ∈ flood, op.now = ⟨0⟩ := by
    intro op hop
    obtain ⟨a, -, rfl⟩ := List.mem_map.1 hop
    rfl
  have hnow : ∀ op ∈ flood ++ [again], op.now.I64 := by
    intro op hop
    rcases List.mem_append.1 hop with hop | hop
    · rw [htimes op hop]
      exact ⟨by decide, by decide⟩
    · rw [List.mem_singleton.1 hop]
      exact ⟨by decide, by decide⟩
  refine ⟨hnow, ?_, fun h => ?_⟩
  · rw [Nondecreasing, List.filterMap_eq_map', List.map_append, List.pairwise_append]
    have hzero : ∀ t ∈ flood.map HandoffOp.now, t = ⟨0⟩ := by
      intro t ht
      obtain ⟨op, hop, rfl⟩ := List.mem_map.1 ht
      exact htimes op hop
    refine ⟨List.pairwise_iff_forall_sublist.2 fun {t t'} hsub => ?_, List.pairwise_singleton .., ?_⟩
    · rw [hzero t (hsub.subset (by simp)), hzero t' (hsub.subset (by simp))]
    · intro t ht t' ht'
      rw [hzero t ht, List.mem_singleton.1 ht']
      exact Timestamp.le_iff.2 (by decide)
  · have hsound := desk_sound Collected.env fun op hop => hnow op (List.mem_append_left _ hop)
    have hspared := (promised_iff hsound (hnow again (by simp))).1 (h flood again [] rfl)
    have hends : again.ends Collected.env (desk Collected.env flood).held = some (attempt 0) :=
      attemptOf_prefix (isAttempt_attempt (by decide))
    have hown : ⟨attempt 0, failure "txn_expired" "the sign-in took too long", 0⟩ ∈
        (desk Collected.env flood).held.outcomes.rows := by
      rw [flood_rows]
      exact List.mem_map_of_mem (List.mem_map_of_mem (List.mem_range.2 (by decide)))
    rcases hspared _ hends _ hown rfl (by decide) with hroom | ⟨other, hother, -, hlt⟩
    · -- all 64 are within their lifetime
      have hlive : ∀ e ∈ (desk Collected.env flood).held.outcomes.rows, e.live again.now.secs = true := by
        intro e he
        rw [flood_rows] at he
        obtain ⟨a, -, rfl⟩ := List.mem_map.1 he
        exact decide_eq_true (by decide : (100 : ℤ) < Int.bmod (0 + 300) (2 ^ 64))
      rw [Keyed.retain_eq_self hlive, flood_rows, List.length_map, attempts, List.length_map,
        List.length_range] at hroom
      exact lt_irrefl _ hroom
    · -- and none comes before the first attempt's
      rw [flood_rows] at hother
      obtain ⟨a, -, rfl⟩ := List.mem_map.1 hother
      have hage : ∀ a, (⟨a, failure "txn_expired" "the sign-in took too long", 0⟩ :
          Holding Outcome).age again.order = toLex (0, toLex (order a, a)) := fun _ => rfl
      rw [hage, hage, Prod.Lex.toLex_lt_toLex, Prod.Lex.toLex_lt_toLex] at hlt
      by_cases ha : a = attempt 0
      · rw [ha] at hlt
        simp at hlt
      · simp [order, ha] at hlt

end Flooded

end Desktop

end SessionBroker
