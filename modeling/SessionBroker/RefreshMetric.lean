/-
  What a refresh counts (`refresh` of `http/session.rs`).

  The handler classifies the cookie, refreshes, and labels the refresh by the
  verdict and by whether it failed; other calls may come between the two.

  * `handleRefresh`: the handler, down to its audit row;
  * `SessionMap.Coalesces`: a refresh finds the current cookie young enough and
    in memory;
  * `refresh_label_iff`: when the label says what happened.
-/
import SessionBroker.Db
import SessionBroker.Killed

namespace SessionBroker

/-- The label of `record_refresh`. -/
inductive RefreshLabel where
  | rotated
  | coalesced
  | refused
deriving DecidableEq, Repr

/-- What the handler does. -/
structure Handled where
  map : SessionMap
  outcome : Except RefreshDenied IssuedCookies
  /-- `record_anomaly`, with the event of the same reason -/
  anomaly : Option AuditRow
  label : Option RefreshLabel

/-- The event of an anomaly. -/
def anomalyRow (outcome reason : String) (sid : Sid) (genNo : ℕ) (now : Timestamp) : AuditRow where
  at_ := now
  action := "session.anomaly"
  outcome := outcome
  actorKind := "user"
  actorId := none
  subject := none
  sid := some sid.id
  custodyId := none
  keyId := none
  reason := some reason
  clientIpPrefix := none
  detail := some [("gen_no", .num genNo)]

def Resolution.anomaly (now : Timestamp) : Resolution → Option AuditRow
  | .active sid genNo false => some (anomalyRow "success" "superseded_generation" sid genNo now)
  | .retired sid genNo => some (anomalyRow "failure" "retired_generation" sid genNo now)
  | _ => none

/-- The label, from the verdict before the refresh. -/
def refreshLabel (before : Resolution) (outcome : Except RefreshDenied IssuedCookies) : RefreshLabel :=
  match before, outcome with
  | _, .error _ => .refused
  | .staleRefreshable .., .ok _ => .rotated
  | _, .ok _ => .coalesced

/-- `refresh`: other calls may come between the verdict and the refresh itself. -/
def handleRefresh (m : SessionMap) (presented : Option TokenHash) (between : List Op)
    (token : SessionToken) (now : Timestamp) : Handled :=
  match presented with
  | none => { map := m, outcome := .error .unknown, anomaly := none, label := none }
  | some hash =>
    let before := m.resolve hash now
    let (map, outcome) := (Runs.run SessionMap.step m between).refresh hash token now
    { map, outcome, anomaly := before.anomaly now, label := some (refreshLabel before outcome) }

/-! ## What happened -/

namespace SessionMap

variable {m : SessionMap} {hash : TokenHash} {token : SessionToken} {now : Timestamp}

/-- The current generation is young enough, and its plaintext in memory. -/
def Coalesces (m : SessionMap) (hash : TokenHash) (now : Timestamp) : Prop :=
  ∃ sid e, m.index hash = some sid ∧ m.sessions sid = some e ∧
    now.since e.current.createdAt < m.policy.coalesceSecs ∧ e.currentToken ≠ none

/-- **A refresh coalesces** exactly when it can. -/
theorem rotated_eq_false_iff {issued : IssuedCookies} (h : (m.refresh hash token now).2 = .ok issued) :
    issued.rotated = false ↔ m.Coalesces hash now := by
  unfold refresh at h
  unfold Coalesces
  cases hi : m.index hash with
  | none =>
    rw [hi] at h
    cases h
  | some sid =>
    rw [hi] at h
    dsimp only at h
    cases he : m.sessions sid with
    | none =>
      rw [he] at h
      cases h
    | some e =>
      rw [he] at h
      dsimp only at h
      rcases hr : e.refresh hash token now m.policy with reason | ⟨e', cookies, effects⟩
      · rw [hr] at h
        cases h
      · rw [hr] at h
        cases h
        obtain ⟨-, ⟨current, hcur, hyoung, -, -, rfl⟩ | ⟨hmint, -, -, rfl⟩⟩ := SessionEntry.refresh_cases hr
        · refine iff_of_true rfl ⟨sid, e, rfl, he, hyoung, ?_⟩
          rw [hcur]
          exact Option.some_ne_none current
        · refine iff_of_false nofun ?_
          rintro ⟨sid', e₁, hi', he₁, hyoung, hcur⟩
          cases hi'
          rw [he] at he₁
          cases he₁
          rcases hmint with hnone | hold
          · exact hcur hnone
          · exact absurd hyoung (not_lt.2 hold)

theorem refresh_outcome_ok_iff : (∃ issued, (m.refresh hash token now).2 = .ok issued) ↔
    (m.resolve hash now).refreshable = true := by
  rw [← refresh_ok_iff token]
  constructor
  · rintro ⟨issued, h⟩
    exact ⟨_, issued, Prod.ext rfl h⟩
  · rintro ⟨m', cookies, h⟩
    exact ⟨cookies, by rw [h]⟩

end SessionMap

/-- The label says what happened. -/
def CountsRight (outcome : Except RefreshDenied IssuedCookies) (label : Option RefreshLabel) : Prop :=
  (label = some .rotated ↔ ∃ issued, outcome = .ok issued ∧ issued.rotated = true) ∧
    (label = some .coalesced ↔ ∃ issued, outcome = .ok issued ∧ issued.rotated = false) ∧
    (label = some .refused ↔ ∃ denied, outcome = .error denied)

theorem countsRight_error (before : Resolution) (denied : RefreshDenied) :
    CountsRight (.error denied) (some (refreshLabel before (.error denied))) := by
  cases before <;> simp [CountsRight, refreshLabel]

theorem countsRight_ok_iff (before : Resolution) (issued : IssuedCookies) :
    CountsRight (.ok issued) (some (refreshLabel before (.ok issued))) ↔
      ((∃ sid genNo, before = .staleRefreshable sid genNo) ↔ issued.rotated = true) := by
  cases before with
  | staleRefreshable sid genNo => simp [CountsRight, refreshLabel]
  | unknown | active _ _ _ | retired _ _ | hardExpired _ _ => simp [CountsRight, refreshLabel]

/-- **The label is right** exactly where a refresh is refused, or the cookie was
    stale exactly if the refresh cannot coalesce. -/
theorem refresh_label_iff (m : SessionMap) (hash : TokenHash) (between : List Op) (token : SessionToken)
    (now : Timestamp) :
    CountsRight ((Runs.run SessionMap.step m between).refresh hash token now).2
        (handleRefresh m (some hash) between token now).label ↔
      (((Runs.run SessionMap.step m between).resolve hash now).refreshable = true →
        ((∃ sid genNo, m.resolve hash now = .staleRefreshable sid genNo) ↔
          ¬(Runs.run SessionMap.step m between).Coalesces hash now)) := by
  unfold handleRefresh
  dsimp only
  generalize Runs.run SessionMap.step m between = m'
  have hserved : (∃ issued, (m'.refresh hash token now).2 = .ok issued) ↔ _ :=
    SessionMap.refresh_outcome_ok_iff
  rw [← hserved]
  cases houtcome : (m'.refresh hash token now).2 with
  | error denied =>
    refine iff_of_true (countsRight_error _ denied) ?_
    rintro ⟨issued, h⟩
    cases h
  | ok issued =>
    have hrotated : issued.rotated = true ↔ ¬m'.Coalesces hash now := by
      rw [← SessionMap.rotated_eq_false_iff houtcome, Bool.not_eq_false]
    rw [countsRight_ok_iff, hrotated]
    exact ⟨fun h _ => h, fun h => h ⟨issued, rfl⟩⟩

/-- A login, and a refresh half a minute before the generation runs out: it
    rotates, and counts as coalesced. -/
theorem early_rotation_counts_coalesced : ∃ (ops : List Op) (hash : TokenHash) (token : SessionToken)
    (now : Timestamp), Fresh (ops ++ [.refresh hash token now]) ∧
      (handleRefresh (SessionMap.runs {} ops) (some hash) [] token now).label = some .coalesced ∧
      ∃ issued, ((SessionMap.runs {} ops).refresh hash token now).2 = .ok issued ∧ issued.rotated = true := by
  refine ⟨[.create ⟨"sid"⟩ ⟨"custody"⟩ "alice" .sample1 ⟨0⟩], SessionToken.sample1.hash, .sample2, ⟨570⟩,
    by decide, by decide +kernel, ?_⟩
  have hrotated : (((SessionMap.runs {} [.create ⟨"sid"⟩ ⟨"custody"⟩ "alice" .sample1 ⟨0⟩]).refresh
      SessionToken.sample1.hash .sample2 ⟨570⟩).2.toOption.map (·.rotated)) = some true := by
    decide +kernel
  cases houtcome : ((SessionMap.runs {} [.create ⟨"sid"⟩ ⟨"custody"⟩ "alice" .sample1 ⟨0⟩]).refresh
      SessionToken.sample1.hash .sample2 ⟨570⟩).2 with
  | error denied =>
    rw [houtcome] at hrotated
    cases hrotated
  | ok issued =>
    rw [houtcome] at hrotated
    exact ⟨issued, rfl, Option.some.inj hrotated⟩

end SessionBroker
