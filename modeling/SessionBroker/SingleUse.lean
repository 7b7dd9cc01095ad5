/-
  A login transaction is used once.

  * `TxnInv`: a transaction whose code was sent is gone, and each exchange fits
    the record of its login.  It rests on ids that are drawn once;
  * `Follows`: a callback that has come past its transaction left none behind;
  * `login_single_use` puts the two together, over every interleaving.
-/
import SessionBroker.SignOn

namespace SessionBroker

open Runs SignOn

/-- The callback has come past its transaction. -/
def CallbackStage.spent : CallbackStage → Bool
  | exchanging _ | identified .. | admitted .. | inCustody .. | failed _ | signedIn _ => true
  | _ => false

/-- The callback has answered. -/
def CallbackStage.finished : CallbackStage → Bool
  | failed _ | signedIn _ => true
  | _ => false

theorem CallbackStage.spent_of_finished {stage : CallbackStage} (h : stage.finished = true) :
    stage.spent = true := by
  cases stage <;> first | rfl | cases h

/-- The exchange fits the record of the login. -/
def Exchange.Fits (e : Exchange) (record : TxnRecord) : Prop :=
  record.providerId = e.providerId ∧ record.state = e.state ∧
    e.now.since record.createdAt < txnTtlSecs

/-! ## What each step does to the transactions -/

namespace TxnStore

theorem insert_of_ne {txns : TxnStore} {id id' : String} {record : TxnRecord} (h : id ≠ id') :
    txns.insert id' record id = txns id := Function.update_of_ne h _ _

@[simp] theorem discard_self (txns : TxnStore) (id : String) : txns.discard id id = none :=
  Function.update_self ..

/-- What is gone stays gone. -/
theorem discard_eq_none {txns : TxnStore} {id : String} (id' : String) (h : txns id = none) :
    txns.discard id' id = none := by
  by_cases hid : id = id'
  · rw [hid, discard_self]
  · exact (Function.update_of_ne hid _ _).trans h

/-- What is there was there. -/
theorem discard_eq_some {txns : TxnStore} {id id' : String} {record : TxnRecord}
    (h : txns.discard id' id = some record) : txns id = some record := by
  by_cases hid : id = id'
  · rw [hid, discard_self] at h
    cases h
  · exact (Function.update_of_ne hid _ _).symm.trans h

end TxnStore

theorem OidcClient.checkTxn_ok {client : OidcClient} {record? : Option TxnRecord} {state : String}
    {now : Timestamp} {record : TxnRecord}
    (h : client.checkTxn record? state now = .ok record) :
    record? = some record ∧ record.providerId = client.providerId ∧ record.state = state ∧
      now.since record.createdAt < txnTtlSecs := by
  unfold checkTxn at h
  cases record? with
  | none => cases h
  | some found =>
    simp only at h
    split_ifs at h with hprovider hage hstate
    cases h
    exact ⟨rfl, not_not.1 hprovider, not_not.1 hstate, not_le.1 hage⟩

/-- **One read takes the transaction**: whatever comes of it, it is gone; and a
    code is sent only for a record that passed the checks. -/
theorem Callback.redeem_spec (c : Callback) (client : OidcClient) (txns : TxnStore) :
    (c.redeem client txns).1 = txns.discard c.txnId ∧
    (c.redeem client txns).2.2.spent = true ∧
    ∀ e ∈ (c.redeem client txns).2.1, e.txnId = c.txnId ∧
      ∃ record, txns c.txnId = some record ∧ e.Fits record := by
  unfold Callback.redeem
  cases hq : c.query.codeAndState client with
  | error error =>
    exact ⟨rfl, rfl, fun e he => by cases he⟩
  | ok pair =>
    obtain ⟨code, state⟩ := pair
    simp only [TxnStore.take]
    cases hck : client.checkTxn (txns c.txnId) state c.now with
    | error error =>
      exact ⟨rfl, rfl, fun e he => by cases he⟩
    | ok record =>
      obtain ⟨hrec, hprovider, hstate, hage⟩ := OidcClient.checkTxn_ok hck
      simp only
      split_ifs
      · refine ⟨rfl, rfl, ?_⟩
        intro e he
        cases he
        exact ⟨rfl, record, hrec, hprovider, hstate, hage⟩
      · exact ⟨rfl, rfl, fun e he => by cases he⟩

/-! ## The invariant -/

namespace SignOn

/-- **What is true of the transactions.** -/
structure TxnInv (s : SignOn) : Prop where
  begun : ∀ id record, s.txns id = some record → (id, record) ∈ s.begun
  gone : ∀ e ∈ s.exchanges, s.txns e.txnId = none
  fits : ∀ e ∈ s.exchanges, ∃ record, (e.txnId, record) ∈ s.begun ∧ e.Fits record
  once : (s.exchanges.map (·.txnId)).Nodup

/-- Ids that were given to a transaction. -/
def Used (s : SignOn) (id : String) : Prop := ∃ record, (id, record) ∈ s.begun

variable {env : SignOnEnv} {s s' : SignOn} {op : SignOnOp}

theorem start_txnInv (registry : ProviderRegistry) (db : Db) : (start registry db).TxnInv where
  begun := fun _ _ h => by cases h
  gone := fun _ h => by cases h
  fits := fun _ h => by cases h
  once := List.nodup_nil

/-- Nothing of the transactions changes. -/
theorem TxnInv.congr (h : s.TxnInv) (ht : s'.txns = s.txns) (hb : s'.begun = s.begun)
    (he : s'.exchanges = s.exchanges) : s'.TxnInv where
  begun := by rw [ht, hb]; exact h.begun
  gone := by rw [he, ht]; exact h.gone
  fits := by rw [he, hb]; exact h.fits
  once := by rw [he]; exact h.once

theorem TxnInv.begin_ (h : s.TxnInv) {id : String} {record : TxnRecord} (hfresh : ¬ s.Used id) :
    (s.begin_ id record).TxnInv where
  begun := by
    intro id' record' h'
    by_cases hid : id' = id
    · rw [hid] at h' ⊢
      change Function.update s.txns id (some record) id = some record' at h'
      rw [Function.update_self] at h'
      cases h'
      exact List.mem_append_right _ (List.mem_singleton_self _)
    · exact List.mem_append_left _ (h.begun id' record' ((TxnStore.insert_of_ne hid).symm.trans h'))
  gone := by
    intro e he
    obtain ⟨record', hmem, -⟩ := h.fits e he
    have hne : e.txnId ≠ id := fun hid => hfresh ⟨record', hid ▸ hmem⟩
    exact (TxnStore.insert_of_ne hne).trans (h.gone e he)
  fits := by
    intro e he
    obtain ⟨record', hmem, hfits⟩ := h.fits e he
    exact ⟨record', List.mem_append_left _ hmem, hfits⟩
  once := h.once

/-- A transaction is removed, and its code sent if it was there. -/
theorem TxnInv.discard (h : s.TxnInv) {id : String} {sent : Option Exchange}
    (ht : s'.txns = s.txns.discard id) (hb : s'.begun = s.begun)
    (he : s'.exchanges = s.exchanges ++ sent.toList)
    (hsent : ∀ e ∈ sent, e.txnId = id ∧ ∃ record, s.txns id = some record ∧ e.Fits record) :
    s'.TxnInv where
  begun := by
    intro id' record h'
    rw [ht] at h'
    rw [hb]
    exact h.begun id' record (TxnStore.discard_eq_some h')
  gone := by
    intro e hmem
    rw [he] at hmem
    rw [ht]
    rcases List.mem_append.1 hmem with hmem | hmem
    · exact TxnStore.discard_eq_none id (h.gone e hmem)
    · rw [(hsent e (Option.mem_toList.1 hmem)).1]
      exact TxnStore.discard_self _ _
  fits := by
    intro e hmem
    rw [he] at hmem
    rw [hb]
    rcases List.mem_append.1 hmem with hmem | hmem
    · exact h.fits e hmem
    · obtain ⟨hid, record, hrec, hfits⟩ := hsent e (Option.mem_toList.1 hmem)
      exact ⟨record, hid ▸ h.begun id record hrec, hfits⟩
  once := by
    rw [he, List.map_append]
    cases sent with
    | none => simpa using h.once
    | some e =>
      obtain ⟨hid, record, hrec, -⟩ := hsent e rfl
      refine h.once.append (List.nodup_singleton _) ?_
      intro id' hid' hid''
      -- a transaction whose code was sent is not there any more
      obtain ⟨e', he', rfl⟩ := List.mem_map.1 hid'
      have hsame : e'.txnId = e.txnId := by simpa using hid''
      have hgone := h.gone e' he'
      rw [hsame, hid, hrec] at hgone
      cases hgone

/-- **A move keeps the invariant**, where a login draws an unused id. -/
theorem TxnInv.move (h : s.TxnInv) (hm : Move env s op s')
    (hfresh : ∀ id ∈ op.draws, ¬ s.Used id) : s'.TxnInv := by
  cases hm with
  | @loginBegun r entry discovery draw now client hstage hcl =>
    have hbegun : (s.begin_ draw.txnId (client.beginLogin draw now)).TxnInv :=
      h.begin_ (hfresh _ rfl)
    exact hbegun.congr rfl rfl rfl
  | @redeem r c client hc hstage =>
    obtain ⟨htxns, -, hsent⟩ := c.redeem_spec client s.txns
    exact h.discard htxns rfl rfl hsent
  | @discard r c error hc hstage =>
    have hsent : ∀ e ∈ (none : Option Exchange), e.txnId = c.txnId ∧
        ∃ record, s.txns c.txnId = some record ∧ e.Fits record := fun e he => by cases he
    exact h.discard rfl rfl (List.append_nil _).symm hsent
  | _ => exact h.congr rfl rfl rfl

/-! ## One callback -/

/-- The callback `r` names a transaction there was, and if it is past it, the
    transaction is gone. -/
def Follows (s : SignOn) (r : ℕ) (id : String) : Prop :=
  s.Used id ∧ ∃ c, s.callbacks r = some c ∧ c.txnId = id ∧ (c.stage.spent = true → s.txns id = none)

/-- A callback moves on, and the transactions only shrink. -/
theorem Follows.set {r : ℕ} {id : String} {c : Callback} {stage : CallbackStage}
    (h : s.Follows r id) (hc : s.callbacks r = some c)
    (hcb : s'.callbacks = Function.update s.callbacks r (some { c with stage }))
    (hb : s'.begun = s.begun)
    (hgone : c.txnId = id → stage.spent = true → s'.txns id = none) : s'.Follows r id := by
  obtain ⟨⟨record, hused⟩, c', hc', hid, -⟩ := h
  rw [hc] at hc'
  cases hc'
  refine ⟨⟨record, hb ▸ hused⟩, { c with stage }, ?_, hid, fun hs => hgone hid hs⟩
  rw [hcb, Function.update_self]

/-- Another request moves on. -/
theorem Follows.other {r : ℕ} {id : String} (h : s.Follows r id)
    (hcb : s'.callbacks r = s.callbacks r) (hb : ∀ p ∈ s.begun, p ∈ s'.begun)
    (hgone : s.txns id = none → s'.txns id = none) : s'.Follows r id := by
  obtain ⟨⟨record, hused⟩, c, hc, hid, hspent⟩ := h
  exact ⟨⟨record, hb _ hused⟩, c, hcb.trans hc, hid, fun hs => hgone (hspent hs)⟩

/-- The transaction is gone once the callback is past it. -/
theorem Follows.gone {r : ℕ} {id : String} {c : Callback} (h : s.Follows r id)
    (hc : s.callbacks r = some c) (hs : c.stage.spent = true) : s.txns id = none := by
  obtain ⟨-, c', hc', -, hspent⟩ := h
  rw [hc] at hc'
  cases hc'
  exact hspent hs

/-- A stage that is not past the transaction says nothing of it. -/
theorem spent_readEntry {registry : ProviderRegistry} {providerId : String} :
    (CallbackStage.readEntry registry providerId).spent = false := by
  unfold CallbackStage.readEntry
  split
  · split_ifs <;> rfl
  · rfl

theorem spent_ofClient {answer : Except DiscoveryFailure OidcClient} :
    (CallbackStage.ofClient answer).spent = false := by
  cases answer <;> rfl

/-- **A move keeps to the callback.** -/
theorem Follows.move {r : ℕ} {id : String} (h : s.Follows r id) (hm : Move env s op s')
    (hfresh : ∀ id ∈ op.draws, ¬ s.Used id) : s'.Follows r id := by
  have hother : ∀ {r' : ℕ} {c : Option Callback}, r ≠ r' →
      Function.update s.callbacks r' c r = s.callbacks r :=
    fun hne => Function.update_of_ne hne _ _
  cases hm with
  | @loginBegun r' entry discovery draw now client hstage hcl =>
    refine h.other rfl (fun p hp => List.mem_append_left _ hp) fun hnone => ?_
    have hne : id ≠ draw.txnId := fun hid => hfresh _ rfl (hid ▸ h.1)
    exact (TxnStore.insert_of_ne hne).trans hnone
  | @arrive r' txnId query now hnone =>
    have hne : r ≠ r' := by
      rintro rfl
      obtain ⟨-, c, hc, -⟩ := h
      rw [hnone] at hc
      cases hc
    exact h.other (hother hne) (fun p hp => hp) fun ht => ht
  | @readTxn r' c hc hstage =>
    by_cases hr : r = r'
    · subst hr
      refine h.set hc rfl rfl fun hid hs => ?_
      -- it is past the transaction only where it found none
      unfold CallbackStage.readTxn TxnStore.providerOf at hs
      rw [hid] at hs
      cases ht : s.txns id with
      | none => exact ht
      | some record =>
        rw [ht] at hs
        cases hs
    · exact h.other (hother hr) (fun p hp => hp) fun ht => ht
  | @readEntry r' c providerId hc hstage =>
    by_cases hr : r = r'
    · subst hr
      refine h.set hc rfl rfl fun _ hs => ?_
      rw [spent_readEntry] at hs
      cases hs
    · exact h.other (hother hr) (fun p hp => hp) fun ht => ht
  | @connected r' c entry discovery hc hstage =>
    by_cases hr : r = r'
    · subst hr
      refine h.set hc rfl rfl fun _ hs => ?_
      rw [spent_ofClient] at hs
      cases hs
    · exact h.other (hother hr) (fun p hp => hp) fun ht => ht
  | @redeem r' c client hc hstage =>
    obtain ⟨htxns, -, -⟩ := c.redeem_spec client s.txns
    by_cases hr : r = r'
    · subst hr
      refine h.set hc rfl rfl fun hid _ => ?_
      show (c.redeem client s.txns).1 id = none
      rw [htxns, hid]
      exact TxnStore.discard_self _ _
    · refine h.other (hother hr) (fun p hp => hp) fun ht => ?_
      show (c.redeem client s.txns).1 id = none
      rw [htxns]
      exact TxnStore.discard_eq_none _ ht
  | @discard r' c error hc hstage =>
    by_cases hr : r = r'
    · subst hr
      refine h.set hc rfl rfl fun hid _ => ?_
      rw [← hid]
      exact TxnStore.discard_self _ _
    · exact h.other (hother hr) (fun p hp => hp) fun ht => TxnStore.discard_eq_none _ ht
  | @exchanged r' c client answer hc hstage | @checkSubject r' c client sub tokens hc hstage
  | @custodyFailed r' c client sub tokens custodyId nextRefresh fails hc hstage
  | @takeCustody r' c client sub tokens custodyId nextRefresh fails db hc hstage hins
  | @createSession r' c client sub tokens sid hc hstage =>
    by_cases hr : r = r'
    · subst hr
      exact h.set hc rfl rfl fun _ _ => h.gone hc (by rw [hstage]; rfl)
    · exact h.other (hother hr) (fun p hp => hp) fun ht => ht
  | _ => exact h.other rfl (fun p hp => hp) fun ht => ht

/-! ## Runs -/

/-- The ids of the transactions were drawn in the run. -/
def Drawn (ops : List SignOnOp) (s : SignOn) : Prop :=
  ∀ id, s.Used id → id ∈ ops.filterMap SignOnOp.draws

theorem Drawn.move {ops : List SignOnOp} (h : Drawn ops s) (hm : Move env s op s') :
    Drawn (ops ++ [op]) s' := by
  have hkeep : ∀ id, s.Used id → id ∈ (ops ++ [op]).filterMap SignOnOp.draws := by
    intro id hid
    rw [List.filterMap_append]
    exact List.mem_append_left _ (h id hid)
  cases hm with
  | @loginBegun r entry discovery draw now client hstage hcl =>
    rintro id ⟨record, hmem⟩
    rcases List.mem_append.1 hmem with hmem | hmem
    · exact hkeep id ⟨record, hmem⟩
    · cases List.mem_singleton.1 hmem
      simp [SignOnOp.draws]
  | _ => exact hkeep

/-- The callbacks that arrived at a transaction. -/
def Arrivals (env : SignOnEnv) (s₀ : SignOn) (ops : List SignOnOp) (r : ℕ) (id : String) : Prop :=
  ∃ before query now after, ops = before ++ .callback r (.arrive id query now) :: after ∧
    (run (step env) s₀ before).callbacks r = none ∧ ((run (step env) s₀ before).txns id).isSome

/-- **What holds in every run** whose draws differ. -/
structure SingleUse (env : SignOnEnv) (s₀ : SignOn) (ops : List SignOnOp) (s : SignOn) : Prop where
  inv : s.TxnInv
  drawn : Drawn ops s
  follows : ∀ r id, Arrivals env s₀ ops r id → s.Follows r id

theorem start_singleUse (registry : ProviderRegistry) (db : Db) :
    SingleUse env (start registry db) [] (start registry db) where
  inv := start_txnInv registry db
  drawn := by
    rintro id ⟨record, hmem⟩
    cases hmem
  follows := by
    rintro r id ⟨before, query, now, after, hops, -⟩
    simp at hops

/-- A callback arrives at a transaction that is there. -/
theorem TxnInv.arrive (h : s.TxnInv) {r : ℕ} {id : String} {query : CallbackQuery} {now : Timestamp}
    (hnone : s.callbacks r = none) (hthere : (s.txns id).isSome) :
    (s.step env (.callback r (.arrive id query now))).Follows r id := by
  obtain ⟨record, hrec⟩ := Option.isSome_iff_exists.1 hthere
  have hstep : s.step env (.callback r (.arrive id query now)) =
      s.setCallback r ⟨id, query, now, .arrived⟩ .arrived := by
    simp only [step, stepCallback, hnone]
  rw [hstep]
  refine ⟨⟨record, h.begun id record hrec⟩, ⟨id, query, now, .arrived⟩, ?_, rfl, ?_⟩
  · exact Function.update_self ..
  · intro hs
    cases hs

theorem run_singleUse (registry : ProviderRegistry) (db : Db) (ops : List SignOnOp)
    (hdraws : (ops.filterMap SignOnOp.draws).Nodup) :
    SingleUse env (start registry db) ops (run (step env) (start registry db) ops) := by
  refine @run_invariant _ _ _ _ (fun ops => (ops.filterMap SignOnOp.draws).Nodup)
    (SingleUse env (start registry db)) ?_ (start_singleUse registry db) ?_ ops hdraws
  · intro as a h
    rw [List.filterMap_append] at h
    exact h.of_append_left
  intro as a hnodup h
  set s := run (step env) (start registry db) as with hs
  have hfresh : ∀ id ∈ a.draws, ¬ s.Used id := by
    intro id hid hused
    rw [List.filterMap_append] at hnodup
    refine (List.nodup_append.1 hnodup).2.2 id (h.drawn id hused) id ?_ rfl
    simpa using hid
  have hmoved : (s.step env a).TxnInv ∧ Drawn (as ++ [a]) (s.step env a) ∧
      ∀ r id, s.Follows r id → (s.step env a).Follows r id := by
    rcases step_move a with hsame | hm
    · rw [hsame]
      refine ⟨h.inv, fun id hid => ?_, fun r id hf => hf⟩
      rw [List.filterMap_append]
      exact List.mem_append_left _ (h.drawn id hid)
    · exact ⟨h.inv.move hm hfresh, h.drawn.move hm, fun r id hf => hf.move hm hfresh⟩
  refine ⟨hmoved.1, hmoved.2.1, ?_⟩
  rintro r id ⟨before, query, now, after, hops, hnone, hthere⟩
  obtain ⟨rfl, rfl, -⟩ | ⟨rest, rfl, -⟩ := concat_eq_split.1 hops
  · -- it arrives now
    exact h.inv.arrive hnone hthere
  · exact hmoved.2.2 r id (h.follows r id ⟨before, query, now, rest, rfl, hnone, hthere⟩)

end SignOn

/-- **A login transaction is single use**: its code is sent at most once, by a
    callback that fits its record, and a callback that arrived at it and has
    answered left none behind. -/
theorem login_single_use (env : SignOnEnv) (registry : ProviderRegistry) (db : Db)
    (ops : List SignOnOp) (hdraws : (ops.filterMap SignOnOp.draws).Nodup) :
    ((run (step env) (start registry db) ops).exchanges.map (·.txnId)).Nodup ∧
    (∀ e ∈ (run (step env) (start registry db) ops).exchanges, ∃ record,
      (e.txnId, record) ∈ (run (step env) (start registry db) ops).begun ∧ e.Fits record) ∧
    ∀ before r id query now after, ops = before ++ .callback r (.arrive id query now) :: after →
      (run (step env) (start registry db) before).callbacks r = none →
      ((run (step env) (start registry db) before).txns id).isSome →
      (∃ c, (run (step env) (start registry db) ops).callbacks r = some c ∧
        c.stage.finished = true) →
      (run (step env) (start registry db) ops).txns id = none := by
  have h : SingleUse env _ ops _ := run_singleUse registry db ops hdraws
  refine ⟨h.inv.once, h.inv.fits, ?_⟩
  rintro before r id query now after hops hnone hthere ⟨c, hc, hfin⟩
  obtain ⟨-, c', hc', hid, hspent⟩ := h.follows r id ⟨before, query, now, after, hops, hnone, hthere⟩
  rw [hc] at hc'
  cases hc'
  exact hspent (CallbackStage.spent_of_finished hfin)

/-! ## Two tabs on one transaction -/

namespace TwoTabs

def settings : ProviderSettings :=
  ⟨"p", "generic", "P", "https://p.example", "c", some ⟨[120], by decide⟩, ["openid"], true, false,
    false, some 0, some 0⟩

def registry : ProviderRegistry := .boot [settings] none

def query : CallbackQuery where
  code := some "code"
  state := some "state"

/-- A login, and two callbacks that both read its transaction before one of them
    takes it. -/
def ops : List SignOnOp :=
  [.login 0 (.arrive (some "p")), .login 0 (.connected (.ok true) ⟨"t", "state", "n", "v", none⟩ ⟨0⟩),
   .callback 0 (.arrive "t" query ⟨599⟩), .callback 1 (.arrive "t" query ⟨599⟩),
   .callback 0 .readTxn, .callback 1 .readTxn, .callback 0 .readEntry, .callback 1 .readEntry,
   .callback 0 (.connected (.ok true)), .callback 1 (.connected (.ok true)),
   .callback 1 .redeem, .callback 0 .redeem]

def env : SignOnEnv := ⟨⟨0, []⟩, fun _ => .error ""⟩

end TwoTabs

/-- One of the two sends the code, and the other finds nothing. -/
theorem login_single_use_two_tabs :
    ((run (step TwoTabs.env) (start TwoTabs.registry (Db.fresh ⟨0⟩)) TwoTabs.ops).exchanges.map
      (·.txnId)) = ["t"] ∧
    ((run (step TwoTabs.env) (start TwoTabs.registry (Db.fresh ⟨0⟩)) TwoTabs.ops).exchanges.map
      (·.txnId)).Nodup := by
  refine ⟨by decide +kernel, ?_⟩
  exact (login_single_use TwoTabs.env TwoTabs.registry (Db.fresh ⟨0⟩) TwoTabs.ops
    (by decide)).1

end SessionBroker
