/-
  The stored refresh token (`custody.rs`, `store/repo.rs`), with a provider
  that rotates it on every use and accepts the newest only.

  * the queue may interleave any command but those of the reaper;
  * `Kept`: the token of a renewed grant is the newest, and once its write is
    acknowledged it is what the row opens to;
  * `refresh_token_kept`: the row opens to the tokens written last, and a
    refresh that reports success has left the newest there.
-/
import SessionBroker.Renewal

namespace SessionBroker

open Runs Table Transaction

/-! ## Any interleaving -/

/-- Sent neither by the session map nor about a custody, and not the reaper. -/
def Command.foreign : Command → Bool
  | insertTxn _ | deleteExpiredTxns _ | admin .. | audit _ | pruneAudit _ | reseal | ping => true
  | _ => false

inductive QueueOp where
  | renewal (op : RenewalOp)
  /-- Anyone else's command, such as a reseal. -/
  | enqueue (cmd : Command)

namespace Renewals

/-- A step of the refreshes, or a command of somebody else. -/
def interleave (ring : KeyRing) (s : Renewals) : QueueOp → Renewals
  | .renewal op => s.step ring op
  | .enqueue cmd =>
    if cmd.foreign then
      { s with broker := { s.broker with queue := s.broker.queue ++ [cmd] } }
    else s

/-- What the provider does: it grants on the newest token only, and issues
    another. -/
def rotating (s : Renewals) : QueueOp → Bool
  | .renewal (.answer custody (.granted grant) _) =>
    match s.task custody with
    | .loaded refreshTok => refreshTok = s.newest custody ∧ grant.rotatedRefreshToken.isSome
    | _ => true
  | _ => true

end Renewals

/-- The renewed grant that a task still holds. -/
def RefreshStage.renewal : RefreshStage → Option Renewal
  | granted r | writing _ r | written r => some r
  | _ => none

/-- Its row has been read. -/
def RefreshStage.Loaded : RefreshStage → Prop
  | loaded _ | granted _ | writing .. | written _ => True
  | _ => False

/-- The row of the custody opens to these tokens. -/
def Db.Holds (ring : KeyRing) (db : Db) (custody : CustodyId) (r : Renewal) : Prop :=
  (db.findCustody custody).map (·.tokens ring) = some (some r.refreshTok, some r.accessTok)

/-! ## A batch -/

section
variable {ring : KeyRing} {db db' : Db} {custody : CustodyId} {cmds : List Command}

/-- A custody that is there is not inserted again. -/
theorem not_inserted (hcmds : ∀ cmd ∈ cmds, ¬ cmd.Reaps)
    (h : applyAll (Db.apply ring) db cmds = some db') (hrow : (db.findCustody custody).isSome)
    {row : FullCustodyRow} {ack : ℕ} (hm : .custody (.insert row) ack ∈ cmds) :
    row.custodyId ≠ custody := by
  rintro rfl
  obtain ⟨before, later, rfl⟩ := List.append_of_mem hm
  obtain ⟨t, ht, h⟩ := applyAll_append_eq_some.1 h
  rw [applyAll_cons, Option.bind_eq_some_iff] at h
  obtain ⟨t', hins, -⟩ := h
  have hthere := findCustody_isSome (fun cmd hc => hcmds cmd (List.mem_append_left _ hc)) ht hrow
  obtain ⟨r, hr⟩ := Option.isSome_iff_exists.1 hthere
  exact (Db.apply_insert hins).1 ⟨r, findCustody_mem hr, findCustody_id hr⟩

/-- **A batch brings the tokens of the renewals in it.** -/
theorem holds_commit (hring : ring.active ∈ ring.keys) (hcmds : ∀ cmd ∈ cmds, ¬ cmd.Reaps)
    (h : applyAll (Db.apply ring) db cmds = some db') (hrow : (db.findCustody custody).isSome)
    {r : Renewal} (hr : ∀ w ack, .custody w ack ∈ cmds → w.renews = some custody → w = r.write custody)
    (hheld : db.Holds ring custody r ∨ ∃ ack, .custody (r.write custody) ack ∈ cmds) :
    db'.Holds ring custody r := by
  obtain ⟨row, hfind⟩ := Option.isSome_iff_exists.1 (findCustody_isSome hcmds h hrow)
  have hlast := opens_last hring hcmds h hfind
  have htokens : ∀ b ∈ cmds.filterMap (Command.tokensFor custody),
      b = (some r.refreshTok, some r.accessTok) := by
    intro b hb
    obtain ⟨cmd, hm, hb⟩ := List.mem_filterMap.1 hb
    cases cmd with
    | custody w ack =>
      cases w with
      | insert row =>
        simp only [Command.tokensFor, if_neg (not_inserted hcmds h hrow hm)] at hb
        cases hb
      | success c refreshTok accessTok accessExp nextRefresh now =>
        simp only [Command.tokensFor] at hb
        split_ifs at hb with hc
        obtain rfl := Option.some.inj hb
        have heq := hr _ _ hm (congrArg some hc)
        rw [Renewal.write, CustodyWrite.success.injEq] at heq
        rw [heq.2.1, heq.2.2.1]
      | failure => cases hb
    | _ => cases hb
  unfold Db.Holds
  rw [hfind, Option.map_some, hlast]
  cases hl : (cmds.filterMap (Command.tokensFor custody)).getLast? with
  | some b =>
    rw [Option.some_or, htokens b (List.mem_of_getLast? hl)]
  | none =>
    rw [Option.none_or]
    rcases hheld with hheld | ⟨ack, hm⟩
    · exact hheld
    · rw [List.getLast?_eq_none_iff, List.filterMap_eq_nil_iff] at hl
      have hnone := hl _ hm
      simp [Command.tokensFor, Renewal.write] at hnone

end

/-! ## What a refresh leaves in the store -/

namespace Renewals

/-- The newest token is on its way into the row, or there. -/
structure Kept (ring : KeyRing) (s : Renewals) : Prop where
  posted : s.Posted
  row : ∀ c, (s.task c).Loaded → (s.broker.db.findCustody c).isSome
  newest : ∀ c r, (s.task c).renewal = some r → r.refreshTok = s.newest c
  acknowledged : ∀ c ack r, s.task c = .writing ack r → ack ∈ s.broker.durable →
    s.broker.db.Holds ring c r
  written : ∀ c r, s.task c = .written r → s.broker.db.Holds ring c r

variable {ring : KeyRing} {s : Renewals}

/-- Nothing is committed and no task moves. -/
theorem Kept.setBroker {b : Broker} (h : s.Kept ring)
    (hposted : ({ s with broker := b } : Renewals).Posted) (hdb : b.db = s.broker.db)
    (hdurable : b.durable = s.broker.durable) : ({ s with broker := b } : Renewals).Kept ring where
  posted := hposted
  row := fun c hl => hdb ▸ h.row c hl
  newest := h.newest
  acknowledged := fun c ack r ht ha => hdb ▸ h.acknowledged c ack r ht (hdurable ▸ ha)
  written := fun c r ht => hdb ▸ h.written c r ht

/-- Nothing is committed and one task moves. -/
theorem Kept.move {b : Broker} {c : CustodyId} {stage : RefreshStage} {newest : Bytes}
    (h : s.Kept ring)
    (hposted : (⟨b, Function.update s.newest c newest, Function.update s.task c stage⟩ :
      Renewals).Posted)
    (hdb : b.db = s.broker.db) (hdurable : b.durable = s.broker.durable)
    (hrow : stage.Loaded → (s.broker.db.findCustody c).isSome)
    (hnewest : ∀ r, stage.renewal = some r → r.refreshTok = newest)
    (hack : ∀ ack r, stage = .writing ack r → ack ∉ s.broker.durable)
    (hwritten : ∀ r, stage = .written r → s.broker.db.Holds ring c r) :
    (⟨b, Function.update s.newest c newest, Function.update s.task c stage⟩ :
      Renewals).Kept ring where
  posted := hposted
  row := by
    intro c' hl
    show (b.db.findCustody c').isSome
    simp only [Function.update_apply] at hl
    rw [hdb]
    split_ifs at hl with hc
    · rw [hc]
      exact hrow hl
    · exact h.row c' hl
  newest := by
    intro c' r hr
    simp only [Function.update_apply] at hr ⊢
    split_ifs at hr ⊢ with hc
    · exact hnewest r hr
    · exact h.newest c' r hr
  acknowledged := by
    intro c' ack r ht ha
    replace ha : ack ∈ s.broker.durable := hdurable ▸ ha
    show b.db.Holds ring c' r
    simp only [Function.update_apply] at ht
    rw [hdb]
    split_ifs at ht with hc
    · exact absurd ha (hack ack r ht)
    · exact h.acknowledged c' ack r ht ha
  written := by
    intro c' r ht
    show b.db.Holds ring c' r
    simp only [Function.update_apply] at ht
    rw [hdb]
    split_ifs at ht with hc
    · rw [hc]
      exact hwritten r ht
    · exact h.written c' r ht

/-- **A batch commits**, or is lost. -/
theorem Kept.commit (hring : ring.active ∈ ring.keys) (h : s.Kept ring) (count : ℕ)
    (beginFails commitFails : Bool) :
    ({ s with broker := s.broker.step ring (.commit count beginFails commitFails) } :
      Renewals).Kept ring := by
  have hposted : ({ s with broker := s.broker.step ring (.commit count beginFails commitFails) } :
      Renewals).Posted := h.posted.commit count beginFails commitFails
  obtain ⟨db, applied, durable, hs, hdurable, hdb⟩ :=
    Broker.commit_spec ring s.broker count beginFails commitFails
  rw [hs] at hposted ⊢
  rcases hdb with ⟨rfl, rfl⟩ | ha
  · exact h.setBroker hposted rfl rfl
  have hcmds : ∀ cmd ∈ s.broker.queue.take count, ¬ cmd.Reaps := fun cmd hm =>
    h.posted.unreaped cmd (List.mem_of_mem_take hm)
  refine ⟨hposted, fun c hl => findCustody_isSome hcmds ha (h.row c hl), h.newest, fun c ack r ht hd => ?_, fun c r ht => ?_⟩
  · -- every renewal of the custody in the batch is the one that is waited for
    have hone : ∀ w ack', .custody w ack' ∈ s.broker.queue.take count → w.renews = some c →
        w = r.write c := by
      intro w ack' hm hw
      obtain ⟨r', ht'⟩ := h.posted.owner c w ack' (List.mem_of_mem_take hm) hw
      rw [ht] at ht'
      cases ht'
      exact (h.posted.waits c ack r ht).2 w (List.mem_of_mem_take hm)
    refine holds_commit hring hcmds ha (h.row c ?_) hone ?_
    · rw [ht]
      trivial
    · rcases hdurable ack hd with hd | ⟨w, hm⟩
      · exact Or.inl (h.acknowledged c ack r ht hd)
      · have hw := (h.posted.waits c ack r ht).2 w (List.mem_of_mem_take hm)
        exact Or.inr ⟨ack, hw ▸ hm⟩
  · have hnone : ∀ w ack', .custody w ack' ∈ s.broker.queue.take count → w.renews = some c →
        w = r.write c := by
      intro w ack' hm hw
      obtain ⟨r', ht'⟩ := h.posted.owner c w ack' (List.mem_of_mem_take hm) hw
      rw [ht] at ht'
      cases ht'
    refine holds_commit hring hcmds ha (h.row c ?_) hnone (Or.inl (h.written c r ht))
    rw [ht]
    trivial

/-- A task moves, and the provider has issued nothing. -/
theorem Kept.stay {b : Broker} {c : CustodyId} {stage : RefreshStage} (h : s.Kept ring)
    (hposted : ({ s.setTask c stage with broker := b } : Renewals).Posted)
    (hdb : b.db = s.broker.db) (hdurable : b.durable = s.broker.durable)
    (hrow : stage.Loaded → (s.broker.db.findCustody c).isSome)
    (hnewest : ∀ r, stage.renewal = some r → r.refreshTok = s.newest c)
    (hack : ∀ ack r, stage = .writing ack r → ack ∉ s.broker.durable)
    (hwritten : ∀ r, stage = .written r → s.broker.db.Holds ring c r) :
    ({ s.setTask c stage with broker := b } : Renewals).Kept ring := by
  have heq : ({ s.setTask c stage with broker := b } : Renewals) =
      ⟨b, Function.update s.newest c (s.newest c), Function.update s.task c stage⟩ := by
    rw [Function.update_eq_self]
    rfl
  rw [heq] at hposted ⊢
  exact h.move hposted hdb hdurable hrow hnewest hack hwritten

/-- The task is over. -/
theorem Kept.joined {c : CustodyId} {outcome : Option RefreshOutcome} {now : Timestamp} {draw : Draw}
    (h : s.Kept ring) (hj : s.Joins c) (hold : ∀ ack r, s.task c ≠ .writing ack r) :
    ({ s.setTask c .spawned with
      broker := s.broker.step ring (.join c outcome now draw) } : Renewals).Kept ring := by
  have hb : s.broker.step ring (.join c outcome now draw) =
      { s.broker with worker := s.broker.worker.join c outcome now draw } := by
    simp only [Broker.step]
    exact if_pos hj
  have hposted : ({ s.setTask c .spawned with
      broker := s.broker.step ring (.join c outcome now draw) } : Renewals).Posted :=
    h.posted.join hj hold
  rw [hb] at hposted ⊢
  exact h.stay hposted rfl rfl False.elim (fun r hr => by cases hr) (fun ack r hn => by cases hn)
    fun r hn => by cases hn

/-- **A step keeps the newest token**, where the provider rotates. -/
theorem Kept.interleave (hring : ring.active ∈ ring.keys) (h : s.Kept ring) (op : QueueOp)
    (hop : s.rotating op = true) : (s.interleave ring op).Kept ring := by
  cases op with
  | enqueue cmd =>
    simp only [Renewals.interleave]
    split_ifs with hc
    · have hs : s.broker.Sends { s.broker with queue := s.broker.queue ++ [cmd] } none := by
        refine ⟨rfl, rfl, rfl, rfl, [cmd], rfl, fun cmd' hm => ?_⟩
        rw [List.mem_singleton.1 hm]
        cases cmd <;> first | exact ⟨rfl, id⟩ | cases hc
      exact h.setBroker (h.posted.sends hs (by simp) h.posted.running) rfl rfl
    · exact h
  | renewal op =>
    have hposted : (s.step ring op).Posted := h.posted.step op
    cases op with
    | broker op =>
      simp only [Renewals.interleave, Renewals.step] at hposted ⊢
      split_ifs at hposted ⊢ with href
      · exact h
      · by_cases hcommit : ∃ count b c, op = .commit count b c
        · obtain ⟨count, b, c, rfl⟩ := hcommit
          exact h.commit hring count b c
        · obtain ⟨write, hs, -⟩ := Broker.step_sends ring s.broker (Bool.eq_false_of_not_eq_true href)
            fun count b c hc => hcommit ⟨count, b, c, hc⟩
          exact h.setBroker hposted hs.db hs.durable
    | load c readFails =>
      simp only [Renewals.interleave, Renewals.step] at hposted ⊢
      split_ifs at hposted ⊢ with hl
      · rcases loadStage_cases ring (s.broker.db.findCustody c) readFails with
          ⟨hrow, refreshTok, hs⟩ | hs | hs
        all_goals
          rw [hs] at hposted ⊢
          refine h.stay hposted rfl rfl ?_ (fun r hr => by cases hr) (fun ack r hn => by cases hn)
            fun r hn => by cases hn
        · exact fun _ => hrow
        · exact False.elim
        · exact False.elim
      · exact h
    | answer c reply now =>
      simp only [Renewals.interleave, Renewals.step] at hposted ⊢
      split at hposted
      · rename_i refreshTok ht
        have hrow : (s.broker.db.findCustody c).isSome := h.row c (by rw [ht]; trivial)
        refine h.move hposted rfl rfl (fun _ => hrow) (fun r hr => ?_) (fun ack r hn => ?_) fun r hn => ?_
        · cases reply with
          | granted grant =>
            simp only [rotating, ht, Bool.decide_and, Bool.decide_eq_true, Bool.and_eq_true] at hop
            obtain ⟨token, htoken⟩ := Option.isSome_iff_exists.1 hop.2
            obtain rfl := Option.some.inj hr
            simp only [UpstreamReply.issued, htoken, Option.getD_some]
          | _ => cases hr
        all_goals cases reply <;> cases hn
      · exact h
    | send c =>
      simp only [Renewals.interleave, Renewals.step] at hposted ⊢
      split at hposted
      · rename_i r ht
        have hb : s.broker.step ring
            (.renew c r.refreshTok r.accessTok r.expiresAt r.expiresAt r.now) =
            s.broker.sendCustody (r.write c) := by
          simp only [Broker.step]
          exact if_pos (h.posted.running c (by rw [ht]; simp))
        rw [hb] at hposted ⊢
        refine h.stay hposted rfl rfl (fun _ => h.row c (by rw [ht]; trivial)) (fun r' hr => ?_)
          (fun ack r' hn hd => ?_) fun r' hn => by cases hn
        · obtain rfl := Option.some.inj hr
          exact h.newest c r (by rw [ht]; rfl)
        · -- the channel is new
          cases hn
          exact absurd (h.posted.channels.durable _ hd).1 (lt_irrefl _)
      · exact h
    | acknowledge c =>
      simp only [Renewals.interleave, Renewals.step] at hposted ⊢
      split at hposted
      · rename_i ack r ht
        split_ifs at hposted ⊢ with hd hno
        · refine h.stay hposted rfl rfl (fun _ => h.row c (by rw [ht]; trivial)) (fun r' hr => ?_)
            (fun ack r' hn => by cases hn) fun r' hn => ?_
          · obtain rfl := Option.some.inj hr
            exact h.newest c r (by rw [ht]; rfl)
          · cases hn
            exact h.acknowledged c ack r ht hd
        · exact h.stay hposted rfl rfl False.elim (fun r hr => by cases hr)
            (fun ack r hn => by cases hn) fun r hn => by cases hn
        · exact h
      · exact h
    | join c now draw =>
      simp only [Renewals.interleave, Renewals.step]
      split_ifs with hj
      · split
        · rename_i outcome ho
          refine h.joined hj fun ack r ht => ?_
          rw [ht] at ho
          cases ho
        · exact h
      · exact h
    | panic c now draw =>
      simp only [Renewals.interleave, Renewals.step]
      split_ifs with hj
      · split
        all_goals first
          | exact h
          | rename_i ht
            refine h.joined hj fun ack r ht' => ?_
            rw [ht] at ht'
            cases ht'
      · exact h

theorem kept_boot (policy : SessionPolicy) (keepalive : KeepalivePolicy) (db : Db) (now : Timestamp)
    (newest : CustodyId → Bytes) : (boot policy keepalive db now newest).Kept ring where
  posted := posted_boot policy keepalive db now newest
  row := fun c hl => hl.elim
  newest := fun c r hr => by cases hr
  acknowledged := fun c ack r ht => by cases ht
  written := fun c r ht => by cases ht

/-- **The stored refresh token never regresses.**  Whatever the queue
    interleaves but the reaper, the row opens to the tokens of the last `Insert`
    or `Success` applied; and where the provider rotates the refresh token on
    every use, a refresh that reports success has left in the row the one that
    the provider accepts. -/
theorem refresh_token_kept (ring : KeyRing) (hring : ring.active ∈ ring.keys) (custody : CustodyId) :
    (∀ db db' cmds, (∀ cmd ∈ cmds, ¬ cmd.Reaps) → applyAll (Db.apply ring) db cmds = some db' →
      ∀ row, db'.findCustody custody = some row →
        some (row.tokens ring) = ((cmds.filterMap (Command.tokensFor custody)).getLast?).or
          ((db.findCustody custody).map (·.tokens ring))) ∧
    ∀ policy keepalive db now newest ops,
      Along (interleave ring) (fun s op => s.rotating op = true)
        (boot policy keepalive db now newest) ops →
      let s := run (interleave ring) (boot policy keepalive db now newest) ops
      ∀ lifetimeSecs rotatedRefresh,
        (s.task custody).outcome = some (.success lifetimeSecs rotatedRefresh) →
        ∃ row, s.broker.db.findCustody custody = some row ∧
          (row.tokens ring).1 = some (s.newest custody) := by
  constructor
  · intro db db' cmds hcmds ha row hrow
    exact opens_last hring hcmds ha hrow
  · intro policy keepalive db now newest ops halong s lifetimeSecs rotatedRefresh hout
    have hkept : s.Kept ring := along_invariant (fun s op h hop => h.interleave hring op hop)
      (kept_boot policy keepalive db now newest) halong
    cases ht : s.task custody with
    | written r =>
      obtain ⟨row, hrow, htokens⟩ := Option.map_eq_some_iff.1 (hkept.written custody r ht)
      refine ⟨row, hrow, ?_⟩
      rw [htokens, hkept.newest custody r (by rw [ht]; rfl)]
    | _ =>
      rw [ht] at hout
      cases hout

/-- A login, and its first renewal with a reseal in between. -/
def firstRenewal : List QueueOp :=
  let row : FullCustodyRow := ⟨⟨"c"⟩, "alice", [97], [120], ⟨1⟩, none, .ok, ⟨1⟩, 0, ⟨0⟩, "p"⟩
  [.renewal (.broker (.takeCustody row)), .renewal (.broker (.commit 1 false false)),
    .renewal (.broker (.schedule ⟨"c"⟩ ⟨0⟩ 1)), .renewal (.broker (.accept ⟨id, id⟩)),
    .renewal (.broker (.tick ⟨1⟩)), .renewal (.broker .dispatch), .renewal (.load ⟨"c"⟩ false),
    .renewal (.answer ⟨"c"⟩ (.granted ⟨[121], some [98], 60⟩) ⟨1⟩), .renewal (.send ⟨"c"⟩),
    .enqueue .reseal, .renewal (.broker (.commit 2 false false)), .renewal (.acknowledge ⟨"c"⟩)]

/-- At a concrete run: the rotated token is in the row when success is reported. -/
theorem refresh_token_kept_rotated :
    let s := run (interleave ⟨1, [1]⟩) (boot {} {} (.fresh ⟨0⟩) ⟨0⟩ fun _ => [97]) firstRenewal
    s.newest ⟨"c"⟩ = [98] ∧ ∃ row, s.broker.db.findCustody ⟨"c"⟩ = some row ∧
      (row.tokens ⟨1, [1]⟩).1 = some (s.newest ⟨"c"⟩) := by
  intro s
  constructor
  · decide
  · exact (refresh_token_kept ⟨1, [1]⟩ (by decide) ⟨"c"⟩).2 {} {} (.fresh ⟨0⟩) ⟨0⟩ (fun _ => [97])
      firstRenewal (by decide) 60 true (by decide)

end Renewals

end SessionBroker
