/-
  One row of `custody` through the commands of the writer (`store/repo.rs`).

  * `Command.onRow` is what a command makes of the row of a custody, and
    `findCustody_applyAll` that the row after a queue is what its commands made
    of it, one after the other;
  * `opens_last`: but for the reaper, whatever the queue interleaves, the row
    opens to the tokens of the last write that had any.
-/
import SessionBroker.Batches
import SessionBroker.Integrity

namespace SessionBroker

open Table Transaction

/-! ## What a command makes of a row -/

/-- The row of a custody. -/
def Db.findCustody (db : Db) (custody : CustodyId) : Option CustodyRecord :=
  db.custody.find? fun c => c.custodyId = custody

/-- The row that `insert_custody` writes. -/
def KeyRing.sealRow (ring : KeyRing) (row : FullCustodyRow) : CustodyRecord where
  custodyId := row.custodyId
  sub := row.sub
  refreshTok := ring.seal row.refreshTok (custodyContext row.custodyId "refresh")
  accessTok := ring.seal row.accessTok (custodyContext row.custodyId "access")
  accessExp := row.accessExp
  scope := row.scope
  status := row.status
  nextRefresh := row.nextRefresh
  failCount := row.failCount
  updatedAt := row.updatedAt
  providerId := row.providerId

/-- What the row's tokens open to. -/
def CustodyRecord.tokens (ring : KeyRing) (c : CustodyRecord) : Option Bytes × Option Bytes :=
  (ring.open c.refreshTok (custodyContext c.custodyId "refresh"),
    ring.open c.accessTok (custodyContext c.custodyId "access"))

/-- The row after `reseal_custody_with`. -/
def CustodyRecord.resealed (ring : KeyRing) (c : CustodyRecord) : CustodyRecord :=
  match (c.reseal ring).1 with
  | [refreshTok, accessTok] => { c with refreshTok, accessTok }
  | _ => c

namespace Command

def onRow (ring : KeyRing) (custody : CustodyId) (row : Option CustodyRecord) :
    Command → Option CustodyRecord
  | .custody (.insert new) _ =>
    if new.custodyId = custody then row.or (some (ring.sealRow new)) else row
  | .custody (.success c refreshTok accessTok accessExp nextRefresh now) _ =>
    if c = custody then
      row.map fun r => { r with
        refreshTok := ring.seal refreshTok (custodyContext c "refresh")
        accessTok := ring.seal accessTok (custodyContext c "access")
        accessExp
        nextRefresh
        status := .ok
        failCount := 0
        updatedAt := now }
    else row
  | .custody (.failure c status failCount nextRefresh now) _ =>
    if c = custody then
      row.map fun r => { r with status, failCount, nextRefresh, updatedAt := now }
    else row
  | .reseal => row.map (·.resealed ring)
  | _ => row

/-- The reaper, which deletes rows. -/
def Reaps : Command → Prop
  | .reap .. => True
  | _ => False

/-- The tokens a write brings to the row of a custody. -/
def tokensFor (custody : CustodyId) : Command → Option (Option Bytes × Option Bytes)
  | .custody (.insert row) _ =>
    if row.custodyId = custody then some (some row.refreshTok, some row.accessTok) else none
  | .custody (.success c refreshTok accessTok _ _ _) _ =>
    if c = custody then some (some refreshTok, some accessTok) else none
  | _ => none

end Command

section
variable {ring : KeyRing} {db db' : Db} {custody : CustodyId} {cmd : Command}

theorem findCustody_id {r : CustodyRecord} (h : db.findCustody custody = some r) :
    r.custodyId = custody := by
  simpa using List.find?_some h

theorem findCustody_mem {r : CustodyRecord} (h : db.findCustody custody = some r) :
    r ∈ db.custody := List.mem_of_find?_eq_some h

/-- A change in place that keeps the ids. -/
theorem findCustody_map {f : CustodyRecord → CustodyRecord} (hf : ∀ r, (f r).custodyId = r.custodyId)
    (h : db'.custody = db.custody.map f) :
    db'.findCustody custody = (db.findCustody custody).map f := by
  unfold Db.findCustody
  rw [h, List.find?_map]
  congr 2
  funext r
  simp [hf]

/-- An `UPDATE` of the rows of one custody. -/
theorem findCustody_update {c : CustodyId} {f : CustodyRecord → CustodyRecord}
    (hf : ∀ r, (f r).custodyId = r.custodyId)
    (h : db'.custody = updateWhere (fun r => r.custodyId = c) f db.custody) :
    db'.findCustody custody =
      if c = custody then (db.findCustody custody).map f else db.findCustody custody := by
  rw [Db.findCustody, h, find?_updateWhere hf, ← Db.findCustody]
  cases hr : db.findCustody custody with
  | none => simp
  | some r =>
    obtain rfl := findCustody_id hr
    split_ifs with hc
    · simp [hc]
    · simp [Ne.symm hc]

/-- **One command**, the reaper apart. -/
theorem findCustody_apply (h : db.apply ring cmd = some db') (hcmd : ¬ cmd.Reaps) :
    db'.findCustody custody = cmd.onRow ring custody (db.findCustody custody) := by
  cases cmd with
  | custody write ack =>
    cases write with
    | insert row =>
      obtain ⟨rows, hrows, rfl⟩ := Option.map_eq_some_iff.1 h
      obtain ⟨hnew, rfl⟩ := insertRow_eq_some.1 hrows
      show (db.custody ++ [ring.sealRow row]).find? _ = _
      simp only [List.find?_append, List.find?_singleton, Command.onRow, decide_eq_true_eq,
        Db.findCustody, show (ring.sealRow row).custodyId = row.custodyId from rfl]
      split_ifs <;> simp
    | success c refreshTok accessTok accessExp nextRefresh now =>
      cases h
      exact findCustody_update (fun _ => rfl) rfl
    | failure c status failCount nextRefresh now =>
      cases h
      exact findCustody_update (fun _ => rfl) rfl
  | reseal =>
    cases h
    refine findCustody_map (fun r => ?_) rfl
    unfold CustodyRecord.resealed
    split <;> rfl
  | reap deadBefore txnBefore => exact absurd trivial hcmd
  | admin write audit ack =>
    obtain ⟨audited, haudited, rfl⟩ := Option.map_eq_some_iff.1 h
    obtain ⟨r, hr, rfl⟩ := Option.map_eq_some_iff.1 haudited
    have hsame : r.1.custody = db.custody := (Db.applyAdmin_sameCore hr).1
    unfold Db.findCustody
    cases audit with
    | none => exact congrArg _ hsame
    | some row => exact congrArg _ hsame
  | session cmd =>
    obtain ⟨t, -, rfl⟩ := Option.map_eq_some_iff.1 h
    rfl
  | insertTxn row =>
    obtain ⟨txn, -, rfl⟩ := Option.map_eq_some_iff.1 h
    rfl
  | _ => cases h; rfl

/-- **A queue**: its commands, one after the other. -/
theorem findCustody_applyAll {cmds : List Command} (hcmds : ∀ cmd ∈ cmds, ¬ cmd.Reaps)
    (h : applyAll (Db.apply ring) db cmds = some db') :
    db'.findCustody custody = cmds.foldl (Command.onRow ring custody) (db.findCustody custody) := by
  induction cmds generalizing db with
  | nil =>
    obtain rfl := Option.some.inj h
    rfl
  | cons cmd cmds ih =>
    rw [applyAll_cons, Option.bind_eq_some_iff] at h
    obtain ⟨t, ht, h⟩ := h
    rw [List.foldl_cons, ← findCustody_apply ht (hcmds cmd (List.mem_cons_self ..))]
    exact ih (fun cmd hc => hcmds cmd (List.mem_cons_of_mem _ hc)) h

/-- Once there, a row stays. -/
theorem findCustody_isSome {cmds : List Command} (hcmds : ∀ cmd ∈ cmds, ¬ cmd.Reaps)
    (h : applyAll (Db.apply ring) db cmds = some db') (hr : (db.findCustody custody).isSome) :
    (db'.findCustody custody).isSome := by
  refine applyAll_preserves (fun db => (db.findCustody custody).isSome) ?_ hr h
  intro s s' cmd hc hs ha
  obtain ⟨r, hr⟩ := Option.isSome_iff_exists.1 hs
  rw [findCustody_apply ha (hcmds cmd hc), hr]
  cases cmd with
  | custody write ack =>
    cases write <;> simp only [Command.onRow] <;> split_ifs <;> rfl
  | _ => rfl

/-! ## The tokens -/

/-- Resealing a row changes nothing of what it opens to. -/
theorem resealed_tokens (hring : ring.active ∈ ring.keys) (c : CustodyRecord) :
    (c.resealed ring).tokens ring = c.tokens ring := by
  unfold CustodyRecord.resealed CustodyRecord.reseal resealColumns
  dsimp only
  split_ifs with hcurrent
  · rfl
  · cases hrefresh : ring.open c.refreshTok (custodyContext c.custodyId "refresh") with
    | none => simp [hrefresh]
    | some refreshTok =>
      cases haccess : ring.open c.accessTok (custodyContext c.custodyId "access") with
      | none => simp [hrefresh, haccess]
      | some accessTok =>
        simp [hrefresh, haccess, CustodyRecord.tokens, open_seal hring]

theorem tokens_apply (hring : ring.active ∈ ring.keys) (h : db.apply ring cmd = some db')
    (hcmd : ¬ cmd.Reaps) {b : Option Bytes × Option Bytes}
    (hb : (db'.findCustody custody).map (·.tokens ring) = some b) :
    some b = (cmd.tokensFor custody).or ((db.findCustody custody).map (·.tokens ring)) := by
  rw [findCustody_apply h hcmd] at hb
  cases cmd with
  | custody write ack =>
    cases write with
    | insert row =>
      simp only [Command.onRow, Command.tokensFor] at hb ⊢
      split_ifs at hb ⊢ with hc
      · subst hc
        have hnew : db.findCustody row.custodyId = none := by
          obtain ⟨rows, hrows, -⟩ := Option.map_eq_some_iff.1 h
          obtain ⟨hnew, -⟩ := insertRow_eq_some.1 hrows
          exact List.find?_eq_none.2 fun r hr => by simpa using hnew r hr
        rw [hnew] at hb
        simpa [CustodyRecord.tokens, KeyRing.sealRow, open_seal hring] using hb.symm
      · rw [← hb]
        rfl
    | success c refreshTok accessTok accessExp nextRefresh now =>
      simp only [Command.onRow, Command.tokensFor] at hb ⊢
      split_ifs at hb ⊢ with hc
      · rw [Option.map_map] at hb
        obtain ⟨r, hr, rfl⟩ := Option.map_eq_some_iff.1 hb
        obtain rfl := findCustody_id hr
        simp [CustodyRecord.tokens, hc, open_seal hring]
      · rw [← hb]
        rfl
    | failure c status failCount nextRefresh now =>
      simp only [Command.onRow, Command.tokensFor] at hb ⊢
      split_ifs at hb ⊢ with hc
      · rw [Option.map_map] at hb
        exact hb.symm
      · exact hb.symm
  | reseal =>
    simp only [Command.onRow, Option.map_map] at hb
    simp only [Command.tokensFor, Option.none_or, ← hb]
    congr 1
    funext c
    exact resealed_tokens hring c
  | _ => exact hb.symm

/-- **The last write with tokens is what the row opens to**, whatever else the
    queue interleaves, the reaper apart. -/
theorem opens_last (hring : ring.active ∈ ring.keys) {cmds : List Command}
    (hcmds : ∀ cmd ∈ cmds, ¬ cmd.Reaps) (h : applyAll (Db.apply ring) db cmds = some db')
    {r : CustodyRecord} (hr : db'.findCustody custody = some r) :
    some (r.tokens ring) = ((cmds.filterMap (Command.tokensFor custody)).getLast?).or
      ((db.findCustody custody).map (·.tokens ring)) := by
  have hstep : ∀ s s' cmd b, ¬ cmd.Reaps → Db.apply ring s cmd = some s' →
      (s'.findCustody custody).map (·.tokens ring) = some b →
      some b = (cmd.tokensFor custody).or ((s.findCustody custody).map (·.tokens ring)) :=
    fun _ _ _ _ hok ha hb => tokens_apply hring ha hok hb
  exact applyAll_last _ _ hstep hcmds h (by rw [hr]; rfl)

end

end SessionBroker
