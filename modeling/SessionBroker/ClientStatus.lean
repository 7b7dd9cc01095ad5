/-
  What the status of the React SDK says, and when it lies.

  * `Watched` remembers how many requests had been sent when a logout resolved
    and when a `session.killed` event came;
  * `status_honest`: over any steps the status is honest exactly if no request
    that a logout or a kill has overruled is still taken at its word, and no
    refresh ends without an answer.
-/
import SessionBroker.React

namespace SessionBroker

open Js Runs

namespace React

/-! ## What is promised -/

/-- The provider, and how many requests had been sent when the last logout
    resolved and when the last kill came: `none` once a later request has
    succeeded. -/
structure Watched where
  p : Provider
  loggedOut : Option ℕ
  killed : Option ℕ
deriving DecidableEq, Repr

namespace Watched

/-- A success lifts what came before its request was sent. -/
def settled (w : Watched) (response : Option Response) : Watched :=
  match w.p.inFlight, performRefresh response with
  | some flight, .success _ =>
    { w with
      loggedOut := w.loggedOut.filter (flight.number ≤ ·)
      killed := w.killed.filter (flight.number ≤ ·) }
  | _, _ => w

/-- What a step that may run changes. -/
def watch (w : Watched) : ClientOp → Watched
  | .logout _ => { w with loggedOut := some w.p.requests }
  | .killed => { w with killed := some w.p.requests }
  | .settle response => w.settled response
  | _ => w

def next (w : Watched) (op : ClientOp) : Watched :=
  if op.task = true ∧ w.p.queue ≠ [] then w else { w.watch op with p := w.p.act op }

/-- After the steps `ops` of a mounted provider. -/
def after (p : Provider) (ops : List ClientOp) : Watched := run next ⟨p, none, none⟩ ops

/-- The step handles the end of a refresh for one who waits. -/
def Handles (w : Watched) (op : ClientOp) (result : Result) : Prop :=
  ∃ now waiter queue, op = .callback now ∧ w.p.queue = .handle result waiter :: queue

/-- What the status promises of a step. -/
structure Promised (w : Watched) (op : ClientOp) : Prop where
  /-- After a logout there is no session until a later request succeeds. -/
  loggedOut : (w.next op).loggedOut ≠ none →
    (w.next op).p.status ≠ .active ∧ (w.next op).p.meta_ = none
  killed : (w.next op).killed ≠ none → (w.next op).p.status ≠ .active
  /-- Only a denial and a kill make the status expired. -/
  expired : (w.next op).p.status = .expired → w.p.status ≠ .expired →
    op = .killed ∨ ∃ error, w.Handles op (.denied error)

/-- No success is handled that a logout or a kill has overruled, and no refresh
    ends without an answer that says so, unless the status is expired already. -/
def Honest (w : Watched) (op : ClientOp) : Prop :=
  (∀ m, w.Handles op (.success m) → w.loggedOut = none ∧ w.killed = none) ∧
    (w.Handles op .failed → w.p.status = .expired)

/-! ## One step -/

/-- What the promises of the steps so far leave. -/
structure Kept (w : Watched) : Prop where
  loggedOut : w.loggedOut ≠ none → w.p.status ≠ .active ∧ w.p.meta_ = none
  killed : w.killed ≠ none → w.p.status ≠ .active

section
variable {w : Watched} {op : ClientOp}

theorem Promised.kept (h : w.Promised op) : (w.next op).Kept := ⟨h.loggedOut, h.killed⟩

theorem next_of_runs (h : ¬(op.task = true ∧ w.p.queue ≠ [])) :
    w.next op = { w.watch op with p := w.p.act op } := if_neg h

/-- A step that does not touch the status and the meta, or only says that it is
    refreshing, or logs out. -/
theorem Kept.promised_of_quiet (h : w.Kept) (hwatch : w.watch op = w)
    (hstatus : (w.p.act op).status = w.p.status ∨ (w.p.act op).status = .refreshing)
    (hmeta : w.p.meta_ = none → (w.p.act op).meta_ = none)
    (hrun : ¬(op.task = true ∧ w.p.queue ≠ [])) : w.Promised op := by
  have hactive : (w.p.act op).status = .active → w.p.status = .active := by
    rintro ha
    rcases hstatus with hs | hs
    · exact hs ▸ ha
    · rw [hs] at ha
      cases ha
  refine ⟨fun hout => ?_, fun hkill => ?_, fun hexp hnot => ?_⟩
  all_goals rw [next_of_runs hrun, hwatch] at *
  · obtain ⟨hs, hm⟩ := h.loggedOut hout
    exact ⟨fun ha => hs (hactive ha), hmeta hm⟩
  · exact fun ha => h.killed hkill (hactive ha)
  · rcases hstatus with hs | hs
    · exact absurd (hs ▸ hexp) hnot
    · rw [show (w.p.act op).status = .expired from hexp] at hs
      cases hs

theorem settled_ne_none {response : Option Response} :
    ((w.settled response).loggedOut ≠ none → w.loggedOut ≠ none) ∧
      ((w.settled response).killed ≠ none → w.killed ≠ none) := by
  unfold settled
  split
  · exact ⟨fun h hnone => h (by rw [hnone]; rfl), fun h hnone => h (by rw [hnone]; rfl)⟩
  · exact ⟨id, id⟩

/-- The end of a refresh is handled. -/
theorem Kept.promised_of_handle (h : w.Kept) {now : ℤ} {result : Result} {p : Provider}
    (hhandles : w.Handles (.callback now) result) (hact : w.p.act (.callback now) = p.handle result now)
    (hmeta : p.meta_ = w.p.meta_) (hhonest : w.Honest (.callback now)) : w.Promised (.callback now) := by
  have hnext : w.next (.callback now) = { w with p := p.handle result now } := by
    rw [next_of_runs (by simp [ClientOp.task]), hact]
    rfl
  cases result with
  | success m =>
    -- nothing is left that the success would have to respect
    obtain ⟨hout, hkill⟩ := hhonest.1 m hhandles
    refine ⟨fun ho => ?_, fun hk => ?_, fun hexp => ?_⟩
    all_goals rw [hnext] at *
    · exact absurd hout ho
    · exact absurd hkill hk
    · cases hexp
  | denied error =>
    have hstatus : (p.handle (.denied error) now).status ≠ .active := by
      unfold Provider.handle
      dsimp only
      split_ifs <;> exact nofun
    refine ⟨fun ho => ?_, fun _ => ?_, fun _ _ => Or.inr ⟨error, hhandles⟩⟩
    all_goals rw [hnext] at *
    · refine ⟨hstatus, ?_⟩
      unfold Provider.handle
      dsimp only
      split_ifs
      · rfl
      · exact hmeta.trans (h.loggedOut ho).2
    · exact hstatus
  | failed =>
    refine ⟨fun ho => ?_, fun _ => ?_, fun _ hnot => absurd (hhonest.2 hhandles) hnot⟩
    all_goals rw [hnext] at *
    · exact ⟨nofun, hmeta.trans (h.loggedOut ho).2⟩
    · exact nofun

/-- **The promises of one step**, if it is honest. -/
theorem Kept.promised (h : w.Kept) (hhonest : w.Honest op) : w.Promised op := by
  by_cases hwait : op.task = true ∧ w.p.queue ≠ []
  · have hnext : w.next op = w := if_pos hwait
    refine ⟨?_, ?_, fun hexp hnot => absurd ?_ hnot⟩
    · rw [hnext]
      exact h.loggedOut
    · rw [hnext]
      exact h.killed
    · rwa [hnext] at hexp
  · cases op with
    | timer now =>
      refine h.promised_of_quiet rfl ?_ (fun hm => ?_) hwait
      all_goals rcases w.p.act_timer now with hact | ⟨due, -, -, hact⟩ <;> rw [hact]
      · exact Or.inl rfl
      · exact Or.inr (Provider.doRefresh_status ..)
      · exact hm
      · exact (Provider.doRefresh_meta ..).trans hm
    | lazyCheck now =>
      refine h.promised_of_quiet rfl ?_ (fun hm => ?_) hwait
      all_goals rcases w.p.act_lazyCheck now with hact | ⟨m, -, -, -, hact⟩ <;> rw [hact]
      · exact Or.inl rfl
      · exact Or.inr (Provider.doRefresh_status ..)
      · exact hm
      · exact (Provider.doRefresh_meta ..).trans hm
    | refresh =>
      exact h.promised_of_quiet rfl (Or.inr (Provider.doRefresh_status ..))
        (fun hm => (Provider.doRefresh_meta ..).trans hm) hwait
    | settle response =>
      have hsame : (w.p.settle response).status = w.p.status ∧
          (w.p.settle response).meta_ = w.p.meta_ := by
        unfold Provider.settle
        cases w.p.inFlight <;> exact ⟨rfl, rfl⟩
      refine ⟨fun ho => ?_, fun hk => ?_, fun hexp hnot => absurd ?_ hnot⟩
      all_goals rw [next_of_runs hwait] at *
      · exact hsame.1 ▸ hsame.2 ▸ h.loggedOut (settled_ne_none.1 ho)
      · exact hsame.1 ▸ h.killed (settled_ne_none.2 hk)
      · exact hsame.1 ▸ hexp
    | callback now =>
      cases hqueue : w.p.queue with
      | nil =>
        have hact := Provider.act_callback_nil hqueue now
        exact h.promised_of_quiet rfl (Or.inl (by rw [hact])) (fun hm => by rwa [hact]) hwait
      | cons first queue =>
        cases first with
        | handle result waiter =>
          exact h.promised_of_handle ⟨now, waiter, queue, rfl, hqueue⟩
            (Provider.act_callback_handle hqueue now) rfl hhonest
        | fired result =>
          have hact := Provider.act_callback_fired hqueue now
          exact h.promised_of_quiet rfl (Or.inl (by rw [hact])) (fun hm => by rwa [hact]) hwait
    | logout now =>
      have hnext : w.next (.logout now) =
          { w with p := w.p.logout now, loggedOut := some w.p.requests } := next_of_runs hwait
      refine ⟨fun _ => ?_, fun _ => ?_, fun hexp _ => ?_⟩
      all_goals rw [hnext] at *
      · exact ⟨nofun, rfl⟩
      · exact nofun
      · cases hexp
    | killed =>
      have hnext : w.next .killed = { w with p := w.p.killed, killed := some w.p.requests } :=
        next_of_runs hwait
      refine ⟨fun ho => ?_, fun _ => ?_, fun _ _ => Or.inl rfl⟩
      all_goals rw [hnext] at *
      · exact ⟨nofun, (h.loggedOut ho).2⟩
      · exact nofun
    | custodyChanged custody =>
      refine h.promised_of_quiet rfl (Or.inl rfl) (fun hm => ?_) hwait
      exact congrArg (Option.map fun m : ClientMeta => { m with custody }) hm
    | leadership leading now => exact h.promised_of_quiet rfl (Or.inl rfl) id hwait
    | resume now => exact h.promised_of_quiet rfl (Or.inl rfl) id hwait
    | render => exact h.promised_of_quiet rfl (Or.inl rfl) id hwait

/-- A step that keeps its promises is honest. -/
theorem Promised.honest (h : w.Promised op) : w.Honest op := by
  refine ⟨?_, ?_⟩
  · rintro m ⟨now, waiter, queue, rfl, hqueue⟩
    have hnext : w.next (.callback now) = { w with p := w.p.act (.callback now) } :=
      next_of_runs (by simp [ClientOp.task])
    have hactive : (w.next (.callback now)).p.status = .active := by
      rw [hnext, Provider.act_callback_handle hqueue now]
      rfl
    constructor
    · by_contra hout
      exact (h.loggedOut (by rwa [hnext])).1 hactive
    · by_contra hkill
      exact h.killed (by rwa [hnext]) hactive
  · rintro ⟨now, waiter, queue, rfl, hqueue⟩
    by_contra hnot
    have hexpired : (w.next (.callback now)).p.status = .expired := by
      rw [next_of_runs (by simp [ClientOp.task]), Provider.act_callback_handle hqueue now]
      rfl
    rcases h.expired hexpired hnot with hkilled | ⟨error, now', waiter', queue', -, hqueue'⟩
    · cases hkilled
    · rw [hqueue] at hqueue'
      cases hqueue'

end

/-! ## Runs -/

theorem after_concat (p : Provider) (ops : List ClientOp) (op : ClientOp) :
    after p (ops ++ [op]) = (after p ops).next op := run_concat ops op

/-- **An honest status**, from the mount over any steps: what it promises is
    kept exactly if every step is honest. -/
theorem status_honest (meta_ : Option ClientMeta) (leader : Bool) (renderedAt startedAt : ℤ)
    (ops : List ClientOp) :
    let p := Provider.mount meta_ leader renderedAt startedAt
    (p.status = .expired ↔ ∃ m, meta_ = some m ∧
        ((m.absoluteUntil.map (· * 1000)).le renderedAt = true ∨
          (m.refreshUntil.map (· * 1000)).le renderedAt = true)) ∧
      ((∀ before op rest, ops = before ++ op :: rest → (after p before).Promised op) ↔
        ∀ before op rest, ops = before ++ op :: rest → (after p before).Honest op) := by
  intro p
  constructor
  · unfold p Provider.mount statusFromMeta
    cases meta_ with
    | none => simp
    | some m =>
      simp only [Bool.or_eq_true]
      split_ifs with hpast <;> simp [hpast]
  · have hstart : (after p []).Kept := ⟨fun ho => absurd rfl ho, fun hk => absurd rfl hk⟩
    refine splits_iff (K := fun ops => (after p ops).Kept) (R := fun _ => True) hstart
      (fun _ _ h _ => ⟨fun hp => hp.honest, fun hh => h.promised hh⟩) ?_ ops fun _ _ => trivial
    intro ops op h _ hh
    rw [after_concat]
    exact (h.promised hh).kept

end Watched

namespace Overruled

def hint : ClientMeta :=
  ⟨.finite 1, "alice", "s", .finite 1, .finite 900, .finite 86400, .finite 604800, .ok⟩

def start : Provider := .mount (some hint) true 0 0

/-- The server cannot be reached. -/
def unreachable : List ClientOp := [.refresh, .settle none, .callback 10]

/-- The answer to an earlier request comes after the logout. -/
def late : List ClientOp :=
  [.refresh, .logout 10, .settle (some ⟨200, "OK", none, some hint⟩), .callback 20]

end Overruled

open Overruled in
theorem status_lies :
    (¬∀ before op rest, unreachable = before ++ op :: rest →
        (Watched.after start before).Promised op) ∧
      ¬∀ before op rest, late = before ++ op :: rest → (Watched.after start before).Promised op := by
  constructor
  · intro h
    have hlast := h [.refresh, .settle none] (.callback 10) [] rfl
    rcases hlast.expired (by decide +kernel) (by decide +kernel) with hkilled | ⟨error, hhandles⟩
    · cases hkilled
    · obtain ⟨now, waiter, queue, -, hqueue⟩ := hhandles
      have hfailed : (Watched.after start [.refresh, .settle none]).p.queue =
          [.handle .failed .caller] := by decide +kernel
      rw [hfailed] at hqueue
      cases hqueue
  · intro h
    have hlast := h [.refresh, .logout 10, .settle (some ⟨200, "OK", none, some hint⟩)]
      (.callback 20) [] rfl
    exact (hlast.loggedOut (by decide +kernel)).1 (by decide +kernel)

end React

end SessionBroker
