/-
  Logins in the writer queue beside the reaper (`custody.rs`, `http/auth.rs`,
  `run_reaper`).

  * a `LoginQueue` is any interleaving of what logins and their sessions send
    with any `Reap`s: the custody row, later the session, later generations;
  * `Unbroken`: every batch commits, and a session finds its custody row;
  * `unbroken_iff`: that is so, however the queue is cut, iff no `Reap` lies
    between the two writes of a login and none removes a session that is to
    mint again.
-/
import SessionBroker.TierA

namespace SessionBroker

open Table Transaction

/-! ## What a command brings -/

namespace Command

/-- The custody a command brings. -/
def takes : Command → Option CustodyId
  | custody (.insert row) _ => some row.custodyId
  | _ => none

/-- The session a command brings. -/
def opens : Command → Option SessionRow
  | session (.insertSession row) => some row
  | _ => none

/-- The hash a command brings. -/
def mints : Command → Option TokenHash
  | session cmd => cmd.issues
  | _ => none

/-- When a command kills this session. -/
def kills (sid : Sid) : Command → Option Timestamp
  | session (.tombstoneSession sid' now) => if sid' = sid then some now else none
  | _ => none

/-- What logins, their sessions and the reaper send. -/
def ofLogins : Command → Bool
  | custody (.insert _) _ | session _ | reap _ _ => true
  | _ => false

end Command

/-- The first death of a session among the commands. -/
def firstDeath (sid : Sid) (cmds : List Command) : Option Timestamp :=
  cmds.findSome? (Command.kills sid)

/-- An interleaving of logins and `Reap`s.  Ids and tokens are drawn afresh. -/
structure LoginQueue (db : Db) (queue : List Command) : Prop where
  kinds : ∀ cmd ∈ queue, cmd.ofLogins = true
  custodies : (db.custody.map (·.custodyId) ++ queue.filterMap Command.takes).Nodup
  sids : (db.session.map (·.row.sid) ++ queue.filterMap fun cmd => cmd.opens.map (·.sid)).Nodup
  hashes : (db.generation.map (·.tokenHash) ++ queue.filterMap Command.mints).Nodup
  /-- A login backs one session. -/
  owners : (queue.filterMap fun cmd => cmd.opens.map (·.custodyId)).Nodup
  /-- A session comes after its custody row. -/
  session : ∀ before row after, queue = before ++ .session (.insertSession row) :: after →
    row.custodyId ∈ before.filterMap Command.takes
  /-- A generation comes after its session. -/
  generation : ∀ before sid genNo hash createdAt activeUntil after,
    queue = before ++
      .session (.insertGeneration sid genNo hash createdAt activeUntil) :: after →
    sid ∈ before.filterMap fun cmd => cmd.opens.map (·.sid)

/-- No `Reap` is in the way. -/
structure Undisturbed (queue : List Command) : Prop where
  login : ∀ before row ack between session after,
    queue = before ++ .custody (.insert row) ack ::
      (between ++ .session (.insertSession session) :: after) →
    session.custodyId = row.custodyId → ∀ deadBefore txnBefore,
    Command.reap deadBefore txnBefore ∉ between
  session : ∀ before row between deadBefore txnBefore between' genNo hash createdAt activeUntil after,
    queue = before ++ .session (.insertSession row) :: (between ++ .reap deadBefore txnBefore ::
      (between' ++ .session (.insertGeneration row.sid genNo hash createdAt activeUntil) :: after)) →
    deadBefore ≤ row.absoluteExp ∧ ∀ at_, firstDeath row.sid between = some at_ → deadBefore ≤ at_

/-- The logins go through. -/
structure Unbroken (ring : KeyRing) (db : Db) (batches : List (List Command)) : Prop where
  commits : ∀ before batch after, batches = before ++ batch :: after →
    (applyBatch ring (WriterThread.run ring db (before.map .ofCommands)).db
      (.ofCommands batch)).committed.isSome
  custody : ∀ before ahead row behind after,
    batches = before ++ (ahead ++ .session (.insertSession row) :: behind) :: after →
    ∃ db', applyAll (Db.apply ring) (WriterThread.run ring db (before.map .ofCommands)).db ahead =
      some db' ∧ ∃ c ∈ db'.custody, c.custodyId = row.custodyId

/-! ## One command -/

namespace Tables

theorem insertSession_isSome {t : Tables} {row : SessionRow} : (t.insertSession row).isSome ↔
    row.sid ∉ t.session.map (·.row.sid) ∧ row.custodyId ∈ t.custody.map (·.custodyId) := by
  have hany : t.session.any (fun s => s.row.sid = row.sid) = true ↔
      row.sid ∈ t.session.map (·.row.sid) := by simp
  unfold insertSession
  split_ifs with hs
  · simp only [Option.isSome_none, Bool.false_eq_true, false_iff, not_and]
    exact fun h => absurd (hany.1 hs) h
  · rw [Option.isSome_map, List.find?_isSome]
    rw [hany] at hs
    simp only [hs, not_false_eq_true, true_and, List.mem_map, decide_eq_true_eq]

theorem insertGeneration_isSome {t : Tables} {sid : Sid} {genNo : ℕ} {hash : TokenHash}
    {createdAt activeUntil : Timestamp} :
    (t.insertGeneration sid genNo hash createdAt activeUntil).isSome ↔
      hash ∉ t.generation.map (·.tokenHash) ∧ sid ∈ t.session.map (·.row.sid) := by
  have hany : t.generation.any (fun g => g.tokenHash = hash) = true ↔
      hash ∈ t.generation.map (·.tokenHash) := by simp
  have hany' : t.session.any (fun s => s.row.sid = sid) = true ↔
      sid ∈ t.session.map (·.row.sid) := by simp
  unfold insertGeneration
  split_ifs with hh hs
  · simp only [Option.isSome_none, Bool.false_eq_true, false_iff, not_and]
    exact fun h => absurd (hany.1 hh) h
  · exact ⟨fun _ => ⟨fun h => hh (hany.2 h), hany'.1 hs⟩, fun _ => rfl⟩
  · simp only [Option.isSome_none, Bool.false_eq_true, false_iff, not_and]
    exact fun _ h => hs (hany'.2 h)

end Tables

section
variable {ring : KeyRing} {db db' : Db} {cmd : Command}

theorem custody_after (hk : cmd.ofLogins = true) (h : db.apply ring cmd = some db')
    {c : CustodyRecord} (hc : c ∈ db'.custody) :
    c ∈ db.custody ∨ cmd.takes = some c.custodyId := by
  cases cmd with
  | session cmd =>
    obtain ⟨t, -, rfl⟩ := Option.map_eq_some_iff.1 h
    exact Or.inl hc
  | custody write ack =>
    cases write with
    | insert row =>
      obtain ⟨custody, hi, rfl⟩ := Option.map_eq_some_iff.1 h
      obtain ⟨-, rfl⟩ := insertRow_eq_some.1 hi
      rcases List.mem_append.1 hc with hc | hc
      · exact Or.inl hc
      · rw [List.mem_singleton.1 hc]
        exact Or.inr rfl
    | _ => cases hk
  | reap deadBefore txnBefore =>
    cases h
    exact Or.inl (mem_deleteWhere.1 hc).1
  | _ => cases hk

theorem custody_kept (hk : cmd.ofLogins = true) (h : db.apply ring cmd = some db')
    (hr : ∀ deadBefore txnBefore, cmd ≠ .reap deadBefore txnBefore) {c : CustodyRecord}
    (hc : c ∈ db.custody) : c ∈ db'.custody := by
  cases cmd with
  | session cmd =>
    obtain ⟨t, -, rfl⟩ := Option.map_eq_some_iff.1 h
    exact hc
  | custody write ack =>
    cases write with
    | insert row =>
      obtain ⟨custody, hi, rfl⟩ := Option.map_eq_some_iff.1 h
      obtain ⟨-, rfl⟩ := insertRow_eq_some.1 hi
      exact List.mem_append_left _ hc
    | _ => cases hk
  | reap deadBefore txnBefore => exact absurd rfl (hr deadBefore txnBefore)
  | _ => cases hk

theorem generation_after (hk : cmd.ofLogins = true) (h : db.apply ring cmd = some db')
    {g : GenerationRow} (hg : g ∈ db'.generation) :
    g.tokenHash ∈ db.generation.map (·.tokenHash) ∨ cmd.mints = some g.tokenHash := by
  cases cmd with
  | session cmd =>
    obtain ⟨t, ht, rfl⟩ := Option.map_eq_some_iff.1 h
    cases cmd with
    | insertSession row =>
      simp only [Tables.applyCommand, Tables.insertSession] at ht
      split_ifs at ht
      obtain ⟨c, -, rfl⟩ := Option.map_eq_some_iff.1 ht
      exact Or.inl (List.mem_map_of_mem hg)
    | insertGeneration sid genNo hash createdAt activeUntil =>
      simp only [Tables.applyCommand, Tables.insertGeneration] at ht
      split_ifs at ht
      cases ht
      rcases List.mem_append.1 hg with hg | hg
      · exact Or.inl (List.mem_map_of_mem hg)
      · rw [List.mem_singleton.1 hg]
        exact Or.inr rfl
    | updateSessionProgress => cases ht; exact Or.inl (List.mem_map_of_mem hg)
    | tombstoneSession => cases ht; exact Or.inl (List.mem_map_of_mem hg)
    | supersedeGeneration hash supersededAt =>
      cases ht
      obtain ⟨g₀, hg₀, rfl⟩ := List.mem_map.1 hg
      refine Or.inl (List.mem_map.2 ⟨g₀, hg₀, ?_⟩)
      split_ifs <;> rfl
    | deleteGeneration hash =>
      cases ht
      exact Or.inl (List.mem_map_of_mem (List.mem_filter.1 hg).1)
  | custody write ack =>
    cases write with
    | insert row =>
      obtain ⟨custody, -, rfl⟩ := Option.map_eq_some_iff.1 h
      exact Or.inl (List.mem_map_of_mem hg)
    | _ => cases hk
  | reap deadBefore txnBefore =>
    cases h
    exact Or.inl (List.mem_map_of_mem (mem_deleteWhere.1 hg).1)
  | _ => cases hk

/-- A session row afterwards: new, or an old one that may have been killed. -/
theorem session_after (hk : cmd.ofLogins = true) (h : db.apply ring cmd = some db')
    {s : SessionRecord} (hs : s ∈ db'.session) :
    (cmd.opens = some s.row ∧ s.tombstonedAt = none) ∨
    ∃ s₀ ∈ db.session, s.row.sid = s₀.row.sid ∧ s.row.custodyId = s₀.row.custodyId ∧
      s.row.absoluteExp = s₀.row.absoluteExp ∧
      s.tombstonedAt = s₀.tombstonedAt.or (cmd.kills s₀.row.sid) ∧
      (s.row.status = .tombstoned ↔
        s₀.row.status = .tombstoned ∨ (cmd.kills s₀.row.sid).isSome) := by
  cases cmd with
  | session cmd =>
    obtain ⟨t, ht, rfl⟩ := Option.map_eq_some_iff.1 h
    cases cmd with
    | insertSession row =>
      simp only [Tables.applyCommand, Tables.insertSession] at ht
      split_ifs at ht
      obtain ⟨c, -, rfl⟩ := Option.map_eq_some_iff.1 ht
      rcases List.mem_append.1 hs with hs | hs
      · exact Or.inr ⟨s, hs, by simp [Command.kills]⟩
      · rw [List.mem_singleton.1 hs]
        exact Or.inl ⟨rfl, rfl⟩
    | insertGeneration sid genNo hash createdAt activeUntil =>
      simp only [Tables.applyCommand, Tables.insertGeneration] at ht
      split_ifs at ht
      cases ht
      exact Or.inr ⟨s, hs, by simp [Command.kills]⟩
    | updateSessionProgress sid currentGen idleExp =>
      cases ht
      obtain ⟨s₀, hs₀, rfl⟩ := List.mem_map.1 hs
      refine Or.inr ⟨s₀, hs₀, ?_⟩
      split_ifs <;> simp [Command.kills]
    | tombstoneSession sid now =>
      cases ht
      obtain ⟨s₀, hs₀, rfl⟩ := List.mem_map.1 hs
      refine Or.inr ⟨s₀, hs₀, ?_⟩
      by_cases he : s₀.row.sid = sid
      · simp [Command.kills, he]
      · simp [Command.kills, he, Ne.symm he]
    | supersedeGeneration => cases ht; exact Or.inr ⟨s, hs, by simp [Command.kills]⟩
    | deleteGeneration => cases ht; exact Or.inr ⟨s, hs, by simp [Command.kills]⟩
  | custody write ack =>
    cases write with
    | insert row =>
      obtain ⟨custody, -, rfl⟩ := Option.map_eq_some_iff.1 h
      exact Or.inr ⟨s, hs, by simp [Command.kills]⟩
    | _ => cases hk
  | reap deadBefore txnBefore =>
    cases h
    exact Or.inr ⟨s, (mem_deleteWhere.1 hs).1, by simp [Command.kills]⟩
  | _ => cases hk

/-- Only a `Reap` removes a session. -/
theorem session_kept (hk : cmd.ofLogins = true) (h : db.apply ring cmd = some db')
    {s : SessionRecord} (hs : s ∈ db.session)
    (hr : ∀ deadBefore txnBefore, cmd = .reap deadBefore txnBefore →
      s.row.sid ∉ db.dead deadBefore) :
    s.row.sid ∈ db'.session.map (·.row.sid) := by
  cases cmd with
  | session cmd =>
    obtain ⟨t, ht, rfl⟩ := Option.map_eq_some_iff.1 h
    cases cmd with
    | insertSession row =>
      simp only [Tables.applyCommand, Tables.insertSession] at ht
      split_ifs at ht
      obtain ⟨c, -, rfl⟩ := Option.map_eq_some_iff.1 ht
      exact List.mem_map_of_mem (List.mem_append_left _ hs)
    | insertGeneration sid genNo hash createdAt activeUntil =>
      simp only [Tables.applyCommand, Tables.insertGeneration] at ht
      split_ifs at ht
      cases ht
      exact List.mem_map_of_mem hs
    | updateSessionProgress sid currentGen idleExp =>
      cases ht
      refine List.mem_map.2 ⟨_, List.mem_map_of_mem hs, ?_⟩
      split_ifs <;> rfl
    | tombstoneSession sid now =>
      cases ht
      refine List.mem_map.2 ⟨_, List.mem_map_of_mem hs, ?_⟩
      split_ifs <;> rfl
    | supersedeGeneration => cases ht; exact List.mem_map_of_mem hs
    | deleteGeneration => cases ht; exact List.mem_map_of_mem hs
  | custody write ack =>
    cases write with
    | insert row =>
      obtain ⟨custody, -, rfl⟩ := Option.map_eq_some_iff.1 h
      exact List.mem_map_of_mem hs
    | _ => cases hk
  | reap deadBefore txnBefore =>
    cases h
    refine List.mem_map_of_mem (mem_deleteWhere.2 ⟨hs, ?_⟩)
    rw [decide_eq_false_iff_not]
    exact hr deadBefore txnBefore rfl
  | _ => cases hk

/-! ## Many commands -/

variable {cmds : List Command} {row : SessionRow} {death : Option Timestamp}

theorem firstDeath_concat (sid : Sid) (cmds : List Command) (cmd : Command) :
    firstDeath sid (cmds ++ [cmd]) = (firstDeath sid cmds).or (cmd.kills sid) := by
  simp [firstDeath, List.findSome?_append]

/-- Whatever row the session has, it has these dates. -/
def Follows (row : SessionRow) (death : Option Timestamp) (db : Db) : Prop :=
  ∀ s ∈ db.session, s.row.sid = row.sid → s.row.absoluteExp = row.absoluteExp ∧
    s.tombstonedAt = death ∧ (death.isSome → s.row.status = .tombstoned)

theorem Follows.apply (h : Follows row death db) (hk : cmd.ofLogins = true)
    (ha : db.apply ring cmd = some db') (ho : cmd.opens.map (·.sid) ≠ some row.sid) :
    Follows row (death.or (cmd.kills row.sid)) db' := by
  intro s hs hsid
  rcases session_after hk ha hs with ⟨hnew, -⟩ | ⟨s₀, hs₀, hsid₀, -, habs, hdeath, hstatus⟩
  · rw [hnew, Option.map_some, hsid] at ho
    exact absurd rfl ho
  · rw [hsid] at hsid₀
    obtain ⟨habs₀, hdeath₀, hstatus₀⟩ := h s₀ hs₀ hsid₀.symm
    rw [← hsid₀] at hdeath hstatus
    refine ⟨habs.trans habs₀, by rw [hdeath, hdeath₀], fun hsome => hstatus.2 ?_⟩
    rw [Option.isSome_or, Bool.or_eq_true] at hsome
    exact hsome.imp_left hstatus₀

theorem Follows.applyAll (h : Follows row none db) (hk : ∀ cmd ∈ cmds, cmd.ofLogins = true)
    (ha : applyAll (Db.apply ring) db cmds = some db')
    (ho : row.sid ∉ cmds.filterMap fun cmd => cmd.opens.map (·.sid)) :
    Follows row (firstDeath row.sid cmds) db' := by
  induction cmds using List.reverseRecOn generalizing db' with
  | nil => exact Option.some.inj ha ▸ h
  | append_singleton cmds cmd ih =>
    obtain ⟨t, ht, ha⟩ := applyAll_append_eq_some.1 ha
    rw [applyAll_cons, Option.bind_eq_some_iff] at ha
    obtain ⟨t', hc, ha⟩ := ha
    obtain rfl := Option.some.inj ha
    rw [List.filterMap_append, List.mem_append, not_or] at ho
    rw [firstDeath_concat]
    refine (ih (fun cmd hc => hk cmd (List.mem_append_left _ hc)) ht ho.1).apply (hk cmd (by simp))
      hc fun he => ho.2 (List.mem_filterMap.2 ⟨cmd, List.mem_singleton_self _, he⟩)

/-- What a `Reap` does to a session whose dates are known. -/
theorem Follows.doomed (h : Follows row death db) {s : SessionRecord} (hs : s ∈ db.session)
    (hsid : s.row.sid = row.sid) (deadBefore : Timestamp) : Db.doomed deadBefore s = true ↔
      row.absoluteExp < deadBefore ∨ ∃ at_, death = some at_ ∧ at_ < deadBefore := by
  obtain ⟨habs, hdeath, hstatus⟩ := h s hs hsid
  simp only [Db.doomed, habs, hdeath, decide_eq_true_eq, or_comm (b := row.absoluteExp < deadBefore)]
  refine or_congr_right ?_
  cases death with
  | none => simp
  | some at_ => simp [hstatus rfl]

/-- What the `INSERT` of a session leaves. -/
theorem insertSession_follows (h : db.apply ring (.session (.insertSession row)) = some db') :
    Follows row none db' ∧ row.sid ∈ db'.session.map (·.row.sid) := by
  obtain ⟨t, ht, rfl⟩ := Option.map_eq_some_iff.1 h
  simp only [Tables.applyCommand, Tables.insertSession] at ht
  split_ifs at ht with hfresh
  obtain ⟨c, -, rfl⟩ := Option.map_eq_some_iff.1 ht
  refine ⟨fun s hs hsid => ?_, List.mem_map.2 ⟨_, List.mem_append_right _ (List.mem_singleton_self _), rfl⟩⟩
  rcases List.mem_append.1 hs with hs | hs
  · exact absurd (List.any_eq_true.2 ⟨s, hs, decide_eq_true hsid⟩) hfresh
  · rw [List.mem_singleton.1 hs]
    exact ⟨rfl, rfl, fun h => absurd h Bool.false_ne_true⟩

/-- A custody row stays while no `Reap` comes. -/
theorem custody_stays (hk : ∀ cmd ∈ cmds, cmd.ofLogins = true)
    (ha : applyAll (Db.apply ring) db cmds = some db')
    (hr : ∀ deadBefore txnBefore, Command.reap deadBefore txnBefore ∉ cmds) {c : CustodyRecord}
    (hc : c ∈ db.custody) : c ∈ db'.custody := by
  induction cmds generalizing db with
  | nil => exact Option.some.inj ha ▸ hc
  | cons cmd cmds ih =>
    rw [applyAll_cons, Option.bind_eq_some_iff] at ha
    obtain ⟨t, ht, ha⟩ := ha
    refine ih (fun cmd hc => hk cmd (List.mem_cons_of_mem _ hc)) ha
      (fun d t hm => hr d t (List.mem_cons_of_mem _ hm)) (custody_kept (hk cmd (by simp)) ht ?_ hc)
    rintro d t rfl
    exact hr d t (List.mem_cons_self ..)

theorem custodies_brought (hk : ∀ cmd ∈ cmds, cmd.ofLogins = true)
    (ha : applyAll (Db.apply ring) db cmds = some db') {id : CustodyId}
    (h : id ∈ db'.custody.map (·.custodyId)) :
    id ∈ db.custody.map (·.custodyId) ∨ id ∈ cmds.filterMap Command.takes := by
  refine applyAll_brings (fun db id => id ∈ db.custody.map (·.custodyId)) Command.takes ?_ hk ha h
  intro s s' cmd k hok hs hm
  obtain ⟨c, hc, rfl⟩ := List.mem_map.1 hm
  exact (custody_after hok hs hc).imp_left List.mem_map_of_mem

/-- A column of the session rows that no command changes. -/
theorem column_brought {κ : Type} (column : SessionRow → κ)
    (hsame : ∀ row row' : SessionRow, row.sid = row'.sid → row.custodyId = row'.custodyId →
      column row = column row')
    (hk : ∀ cmd ∈ cmds, cmd.ofLogins = true) (ha : applyAll (Db.apply ring) db cmds = some db')
    {k : κ} (h : k ∈ db'.session.map fun s => column s.row) :
    (k ∈ db.session.map fun s => column s.row) ∨
      k ∈ cmds.filterMap fun cmd => cmd.opens.map column := by
  refine applyAll_brings (fun db k => k ∈ db.session.map fun s => column s.row)
    (fun cmd => cmd.opens.map column) ?_ hk ha h
  intro s s' cmd k hok hs hm
  obtain ⟨r, hr, rfl⟩ := List.mem_map.1 hm
  rcases session_after hok hs hr with ⟨hnew, -⟩ | ⟨r₀, hr₀, hsid, hcustody, -⟩
  · exact Or.inr (by rw [hnew, Option.map_some])
  · exact Or.inl (List.mem_map.2 ⟨r₀, hr₀, (hsame _ _ hsid hcustody).symm⟩)

theorem hashes_brought (hk : ∀ cmd ∈ cmds, cmd.ofLogins = true)
    (ha : applyAll (Db.apply ring) db cmds = some db') {hash : TokenHash}
    (h : hash ∈ db'.generation.map (·.tokenHash)) :
    hash ∈ db.generation.map (·.tokenHash) ∨ hash ∈ cmds.filterMap Command.mints := by
  refine applyAll_brings (fun db hash => hash ∈ db.generation.map (·.tokenHash)) Command.mints ?_ hk
    ha h
  intro s s' cmd k hok hs hm
  obtain ⟨g, hg, rfl⟩ := List.mem_map.1 hm
  exact generation_after hok hs hg

/-- A session stays while no `Reap` comes past its dates. -/
theorem session_stays (hi : db.Integrity) (hf : Follows row none db)
    (hs : row.sid ∈ db.session.map (·.row.sid)) (hk : ∀ cmd ∈ cmds, cmd.ofLogins = true)
    (ha : applyAll (Db.apply ring) db cmds = some db')
    (ho : row.sid ∉ cmds.filterMap fun cmd => cmd.opens.map (·.sid))
    (hr : ∀ before deadBefore txnBefore after, cmds = before ++ .reap deadBefore txnBefore :: after →
      deadBefore ≤ row.absoluteExp ∧
        ∀ at_, firstDeath row.sid before = some at_ → deadBefore ≤ at_) :
    row.sid ∈ db'.session.map (·.row.sid) := by
  induction cmds using List.reverseRecOn generalizing db' with
  | nil => exact Option.some.inj ha ▸ hs
  | append_singleton cmds cmd ih =>
    obtain ⟨t, ht, ha⟩ := applyAll_append_eq_some.1 ha
    rw [applyAll_cons, Option.bind_eq_some_iff] at ha
    obtain ⟨t', hc, ha⟩ := ha
    obtain rfl := Option.some.inj ha
    rw [List.filterMap_append, List.mem_append, not_or] at ho
    have hk' : ∀ cmd ∈ cmds, cmd.ofLogins = true := fun cmd hc => hk cmd (List.mem_append_left _ hc)
    have hmem := ih hk' ht ho.1 fun before d x after he => hr before d x (after ++ [cmd]) (by simp [he])
    obtain ⟨s, hst, hsid⟩ := List.mem_map.1 hmem
    rw [← hsid]
    refine session_kept (hk cmd (by simp)) hc hst ?_
    rintro d x rfl hdead
    have hit : t.Integrity := hi.applyAll ht
    rw [hit.mem_dead hst, (hf.applyAll hk' ht ho.1).doomed hst hsid] at hdead
    obtain ⟨habs, hdeath⟩ := hr cmds d x [] rfl
    rcases hdead with h | ⟨at_, h, hlt⟩
    · exact absurd h (not_lt.2 habs)
    · exact absurd hlt (not_lt.2 (hdeath at_ h))

end

/-! ## The queue -/

section
variable {ring : KeyRing} {store : Store} {queue before after : List Command} {cmd : Command}
  {db : Db}

/-- What a command brings is new. -/
theorem brings_new {κ : Type} {ids : List κ} {brings : Command → Option κ} {k : κ}
    (h : (ids ++ (before ++ cmd :: after).filterMap brings).Nodup) (hb : brings cmd = some k) :
    k ∉ ids ∧ k ∉ before.filterMap brings ∧ k ∉ after.filterMap brings := by
  rw [List.filterMap_append, List.filterMap_cons_some hb, List.nodup_append, List.nodup_append] at h
  obtain ⟨-, ⟨-, hafter, hbefore⟩, hids⟩ := h
  refine ⟨fun hk => hids k hk k (by simp) rfl, fun hk => hbefore k hk k (List.mem_cons_self ..) rfl, ?_⟩
  exact (List.nodup_cons.1 hafter).1

/-- The command that brought something. -/
theorem exists_bringer {κ : Type} {brings : Command → Option κ} {k : κ}
    (h : k ∈ before.filterMap brings) :
    ∃ ahead cmd behind, before = ahead ++ cmd :: behind ∧ brings cmd = some k := by
  obtain ⟨cmd, hc, hk⟩ := List.mem_filterMap.1 h
  obtain ⟨ahead, behind, rfl⟩ := List.append_of_mem hc
  exact ⟨ahead, cmd, behind, rfl, hk⟩

theorem takes_eq_some {custodyId : CustodyId} : cmd.takes = some custodyId ↔
    ∃ row ack, cmd = .custody (.insert row) ack ∧ row.custodyId = custodyId := by
  cases cmd with
  | custody write ack => cases write <;> simp [Command.takes]
  | _ => simp [Command.takes]

theorem opens_eq_some {row : SessionRow} :
    cmd.opens = some row ↔ cmd = .session (.insertSession row) := by
  cases cmd with
  | session cmd => cases cmd <;> simp [Command.opens]
  | _ => simp [Command.opens]

/-- A command that was applied, with the states around it. -/
theorem applyAll_split (h : applyAll (Db.apply ring) store.1 (before ++ cmd :: after) = some db) :
    ∃ db₀ db₁, applyAll (Db.apply ring) store.1 before = some db₀ ∧ db₀.Integrity ∧
      db₀.apply ring cmd = some db₁ ∧ db₁.Integrity ∧
      applyAll (Db.apply ring) db₁ after = some db := by
  obtain ⟨db₀, h₀, h⟩ := applyAll_append_eq_some.1 h
  rw [applyAll_cons, Option.bind_eq_some_iff] at h
  obtain ⟨db₁, h₁, h⟩ := h
  have hi : db₀.Integrity := store.2.applyAll h₀
  exact ⟨db₀, db₁, h₀, hi, h₁, hi.apply h₁, h⟩

/-- A session finds its custody row. -/
theorem custody_there (hq : LoginQueue store.1 queue) (hu : Undisturbed queue) {row : SessionRow}
    (hqueue : queue = before ++ .session (.insertSession row) :: after)
    (h : applyAll (Db.apply ring) store.1 before = some db) :
    ∃ c ∈ db.custody, c.custodyId = row.custodyId := by
  obtain ⟨ahead, cmd, behind, rfl, htakes⟩ := exists_bringer (hq.session before row after hqueue)
  obtain ⟨custody, ack, rfl, hid⟩ := takes_eq_some.1 htakes
  obtain ⟨db₀, db₁, -, -, h₁, -, h₂⟩ := applyAll_split h
  have hc : ∃ c ∈ db₁.custody, c.custodyId = row.custodyId := by
    obtain ⟨table, hi, rfl⟩ := Option.map_eq_some_iff.1 h₁
    obtain ⟨-, rfl⟩ := insertRow_eq_some.1 hi
    exact ⟨_, List.mem_append_right _ (List.mem_singleton_self _), hid⟩
  obtain ⟨c, hc, hcid⟩ := hc
  refine ⟨c, custody_stays (fun cmd hm => hq.kinds cmd ?_) h₂ ?_ hc, hcid⟩
  · rw [hqueue]
    simp [hm]
  · exact hu.login ahead custody ack behind row after (by rw [hqueue]; simp) hid.symm

/-- A generation finds its session. -/
theorem session_there (hq : LoginQueue store.1 queue) (hu : Undisturbed queue) {sid : Sid}
    {genNo : ℕ} {hash : TokenHash} {createdAt activeUntil : Timestamp}
    (hqueue : queue = before ++
      .session (.insertGeneration sid genNo hash createdAt activeUntil) :: after)
    (h : applyAll (Db.apply ring) store.1 before = some db) :
    sid ∈ db.session.map (·.row.sid) := by
  obtain ⟨ahead, cmd, behind, rfl, hopens⟩ :=
    exists_bringer (hq.generation before sid genNo hash createdAt activeUntil after hqueue)
  obtain ⟨row, hrow, rfl⟩ := Option.map_eq_some_iff.1 hopens
  obtain rfl := opens_eq_some.1 hrow
  obtain ⟨db₀, db₁, -, -, h₁, hi₁, h₂⟩ := applyAll_split h
  obtain ⟨hfollows, hsid⟩ := insertSession_follows h₁
  have hsids := hq.sids
  rw [hqueue, List.append_assoc, List.cons_append] at hsids
  refine session_stays hi₁ hfollows hsid (fun cmd hm => hq.kinds cmd ?_) h₂ ?_ ?_
  · rw [hqueue]
    simp [hm]
  · have hnew := (brings_new hsids (hopens)).2.2
    rw [List.filterMap_append, List.mem_append, not_or] at hnew
    exact hnew.1
  · rintro between deadBefore txnBefore between' rfl
    exact hu.session ahead row between deadBefore txnBefore between' genNo hash createdAt activeUntil
      after (by rw [hqueue]; simp)

/-- **No command is refused** where no `Reap` is in the way. -/
theorem applyAll_of_undisturbed (hq : LoginQueue store.1 queue) (hu : Undisturbed queue) :
    ∀ before after, queue = before ++ after →
      ∃ db, applyAll (Db.apply ring) store.1 before = some db := by
  intro before
  induction before using List.reverseRecOn with
  | nil => exact fun _ _ => ⟨_, rfl⟩
  | append_singleton before cmd ih =>
    intro after hqueue
    rw [List.append_assoc, List.singleton_append] at hqueue
    obtain ⟨db, h⟩ := ih _ hqueue
    have hk : ∀ cmd ∈ before, cmd.ofLogins = true := by
      intro cmd hm
      refine hq.kinds cmd ?_
      rw [hqueue]
      exact List.mem_append_left _ hm
    suffices hsome : (db.apply ring cmd).isSome by
      obtain ⟨db', hdb'⟩ := Option.isSome_iff_exists.1 hsome
      refine ⟨db', applyAll_append_eq_some.2 ⟨db, h, ?_⟩⟩
      rw [applyAll_cons, hdb']
      rfl
    have hkind := hq.kinds cmd (by rw [hqueue]; simp)
    cases cmd with
    | custody write ack =>
      cases write with
      | insert row =>
        have hcustodies := hq.custodies
        rw [hqueue] at hcustodies
        obtain ⟨h₀, hbefore, -⟩ := brings_new hcustodies rfl
        simp only [Db.apply, Db.applyCustody, Db.insertCustody, Option.isSome_map, insertRow_isSome]
        intro c hc hid
        rcases custodies_brought hk h (List.mem_map_of_mem hc) with hm | hm
        · exact h₀ (hid ▸ hm)
        · exact hbefore (hid ▸ hm)
      | _ => cases hkind
    | session cmd =>
      cases cmd with
      | insertSession row =>
        have hsids := hq.sids
        rw [hqueue] at hsids
        obtain ⟨h₀, hbefore, -⟩ := brings_new hsids rfl
        obtain ⟨c, hc, hid⟩ := custody_there hq hu hqueue h
        simp only [Db.apply, Db.applySession, Option.isSome_map, Tables.applyCommand,
          Tables.insertSession_isSome]
        refine ⟨fun hm => ?_, ?_⟩
        · exact (column_brought (·.sid) (fun _ _ h _ => h) hk h hm).elim h₀ hbefore
        · rw [← hid]
          exact List.mem_map.2 ⟨_, List.mem_map_of_mem hc, rfl⟩
      | insertGeneration sid genNo hash createdAt activeUntil =>
        have hhashes := hq.hashes
        rw [hqueue] at hhashes
        obtain ⟨h₀, hbefore, -⟩ := brings_new hhashes rfl
        simp only [Db.apply, Db.applySession, Option.isSome_map, Tables.applyCommand,
          Tables.insertGeneration_isSome]
        refine ⟨fun hm => (hashes_brought hk h hm).elim h₀ hbefore, session_there hq hu hqueue h⟩
      | _ => rfl
    | reap => rfl
    | _ => cases hkind

/-- A `Reap` between the writes of a login takes the custody row. -/
theorem login_of_applyAll (hq : LoginQueue store.1 queue)
    (h : applyAll (Db.apply ring) store.1 queue = some db) {row : FullCustodyRow} {ack : ℕ}
    {between : List Command} {session : SessionRow}
    (hqueue : queue = before ++ .custody (.insert row) ack ::
      (between ++ .session (.insertSession session) :: after))
    (hid : session.custodyId = row.custodyId) {deadBefore txnBefore : Timestamp} :
    Command.reap deadBefore txnBefore ∉ between := by
  intro hm
  obtain ⟨b₁, b₂, rfl⟩ := List.append_of_mem hm
  have hsplit : before ++ .custody (.insert row) ack ::
      (b₁ ++ .reap deadBefore txnBefore :: b₂ ++ .session (.insertSession session) :: after) =
      (before ++ .custody (.insert row) ack :: b₁) ++ .reap deadBefore txnBefore ::
        (b₂ ++ .session (.insertSession session) :: after) := by simp
  have hkinds := hq.kinds
  have hcustodies := hq.custodies
  have howners := hq.owners
  rw [hqueue] at h hkinds hcustodies howners
  obtain ⟨h₀, hbefore, hafter⟩ := brings_new hcustodies rfl
  rw [hsplit] at h howners hkinds
  obtain ⟨db₀, db₁, hdb₀, hi₀, hdb₁, -, hdb⟩ := applyAll_split h
  -- no session refers to the row when the `Reap` comes
  have hno : row.custodyId ∉ db₀.session.map (·.row.custodyId) := by
    intro hm
    rcases column_brought (·.custodyId) (fun _ _ _ h => h)
      (fun cmd hc => hkinds cmd (List.mem_append_left _ hc)) hdb₀ hm with hm | hm
    · obtain ⟨s, hs, hsid⟩ := List.mem_map.1 hm
      obtain ⟨c, hc, hcid⟩ := store.2.sessionCustody s hs
      exact h₀ (List.mem_map.2 ⟨c, hc, hcid.trans hsid⟩)
    · rw [List.filterMap_append, List.nodup_append] at howners
      refine howners.2.2 _ hm row.custodyId ?_ rfl
      simp [Command.opens, hid]
  have hgone : row.custodyId ∉ db₁.custody.map (·.custodyId) := by
    cases hdb₁
    intro hm
    obtain ⟨c, hc, hcid⟩ := List.mem_map.1 hm
    obtain ⟨hc, hkeep⟩ := mem_deleteWhere.1 hc
    simp only [decide_eq_false_iff_not, not_not] at hkeep
    obtain ⟨s, hs, hsid⟩ := List.mem_map.1 hkeep
    exact hno (List.mem_map.2 ⟨s, (mem_deleteWhere.1 hs).1, hsid.trans hcid⟩)
  -- and none brings it back
  obtain ⟨db₂, hdb₂, hrest⟩ := applyAll_append_eq_some.1 hdb
  rw [applyAll_cons, Option.bind_eq_some_iff] at hrest
  obtain ⟨db₃, hdb₃, -⟩ := hrest
  have hsome : (db₂.applySession (.insertSession session)).isSome := Option.isSome_iff_exists.2 ⟨db₃, hdb₃⟩
  rw [Db.applySession, Option.isSome_map, Tables.applyCommand, Tables.insertSession_isSome] at hsome
  obtain ⟨_, hrow, hcid⟩ := List.mem_map.1 hsome.2
  obtain ⟨c, hc, rfl⟩ := List.mem_map.1 hrow
  rcases custodies_brought (fun cmd hm => hkinds cmd (by simp [hm])) hdb₂
    (List.mem_map_of_mem hc) with hm | hm
  · exact hgone (hid ▸ hcid ▸ hm)
  · refine hafter ?_
    rw [← hid, ← hcid, List.filterMap_append, List.filterMap_append, List.filterMap_cons_none rfl]
    exact List.mem_append_left _ (List.mem_append_right _ hm)

/-- A `Reap` past the dates of a session takes it, with its generations to come. -/
theorem session_of_applyAll (hq : LoginQueue store.1 queue)
    (h : applyAll (Db.apply ring) store.1 queue = some db) {row : SessionRow}
    {between between' : List Command} {deadBefore txnBefore : Timestamp} {genNo : ℕ}
    {hash : TokenHash} {createdAt activeUntil : Timestamp}
    (hqueue : queue = before ++ .session (.insertSession row) :: (between ++
      .reap deadBefore txnBefore ::
      (between' ++ .session (.insertGeneration row.sid genNo hash createdAt activeUntil) :: after))) :
    deadBefore ≤ row.absoluteExp ∧
      ∀ at_, firstDeath row.sid between = some at_ → deadBefore ≤ at_ := by
  have hkinds := hq.kinds
  have hsids := hq.sids
  rw [hqueue] at h hkinds hsids
  obtain ⟨-, -, hafter⟩ := brings_new hsids rfl
  obtain ⟨db₀, db₁, -, -, h₁, hi₁, h₂⟩ := applyAll_split h
  have hfollows := (insertSession_follows h₁).1
  obtain ⟨db₂, hdb₂, hrest⟩ := applyAll_append_eq_some.1 h₂
  rw [applyAll_cons, Option.bind_eq_some_iff] at hrest
  obtain ⟨db₃, hdb₃, hrest⟩ := hrest
  obtain ⟨db₄, hdb₄, hrest⟩ := applyAll_append_eq_some.1 hrest
  rw [applyAll_cons, Option.bind_eq_some_iff] at hrest
  obtain ⟨db₅, hdb₅, -⟩ := hrest
  -- the session is there for the generation, and so it was there after the `Reap`
  have hsome : (db₄.applySession
      (.insertGeneration row.sid genNo hash createdAt activeUntil)).isSome :=
    Option.isSome_iff_exists.2 ⟨db₅, hdb₅⟩
  rw [Db.applySession, Option.isSome_map, Tables.applyCommand,
    Tables.insertGeneration_isSome] at hsome
  have hthere : row.sid ∈ db₃.session.map (·.row.sid) := by
    rcases column_brought (·.sid) (fun _ _ h _ => h) (fun cmd hm => hkinds cmd (by simp [hm])) hdb₄
      hsome.2 with hm | hm
    · exact hm
    · refine absurd ?_ hafter
      rw [List.filterMap_append, List.filterMap_cons_none rfl, List.filterMap_append]
      exact List.mem_append_right _ (List.mem_append_left _ hm)
  have hi₂ : db₂.Integrity := hi₁.applyAll hdb₂
  have hf₂ : Follows row (firstDeath row.sid between) db₂ := by
    refine hfollows.applyAll (fun cmd hm => hkinds cmd (by simp [hm])) hdb₂ fun hm => hafter ?_
    rw [List.filterMap_append]
    exact List.mem_append_left _ hm
  cases hdb₃
  obtain ⟨s, hs, hsid⟩ := List.mem_map.1 hthere
  obtain ⟨hs, hdead⟩ := mem_deleteWhere.1 hs
  have hspared : ¬ Db.doomed deadBefore s = true := fun hd =>
    of_decide_eq_false hdead ((hi₂.mem_dead hs).2 hd)
  rw [hf₂.doomed hs hsid, not_or] at hspared
  exact ⟨not_lt.1 hspared.1, fun at_ hat => not_lt.1 fun hlt => hspared.2 ⟨at_, hat, hlt⟩⟩

/-- Without a `Shutdown` the thread takes every batch. -/
theorem run_db (db : Db) {batches : List (List Command)}
    (h : ∀ batch ∈ batches, ∀ cmd ∈ batch, cmd ≠ .shutdown) :
    (WriterThread.run ring db (batches.map .ofCommands)).db =
      commitAll (Db.apply ring) db batches := by
  induction batches using List.reverseRecOn with
  | nil => rfl
  | append_singleton batches batch ih =>
    have hgoes : (WriterThread.run ring db (batches.map .ofCommands)).returned = false := by
      refine foldl_turn_goes_on ring ⟨db, [], false⟩ fun b hb cmd hc => ?_
      obtain ⟨batch', hb', rfl⟩ := List.mem_map.1 hb
      obtain ⟨cmd', hc', rfl⟩ := List.mem_map.1 hc
      exact h batch' (List.mem_append_left _ hb') cmd' hc'
    rw [List.map_append, List.map_singleton, WriterThread.run_concat, WriterThread.turn, hgoes,
      if_neg Bool.false_ne_true]
    dsimp only
    rw [applyBatch_ofCommands_committed, commitAll, List.foldl_append,
      ih fun b hb => h b (List.mem_append_left _ hb)]
    rfl

end

/-- **A login is never broken by the reaper** iff no `Reap` lies between its two
    writes and none takes a session that is to mint again; for every queue of
    logins, on every store, and however the queue is cut. -/
theorem unbroken_iff (ring : KeyRing) (store : Store) (queue : List Command)
    (hq : LoginQueue store.1 queue) (batches : List (List Command)) (hcut : batches.flatten = queue) :
    Unbroken ring store.1 batches ↔ Undisturbed queue := by
  have hno : ∀ batch ∈ batches, ∀ cmd ∈ batch, cmd ≠ .shutdown := by
    rintro batch hb cmd hc rfl
    have := hq.kinds .shutdown (hcut ▸ List.mem_flatten.2 ⟨batch, hb, hc⟩)
    exact absurd this Bool.false_ne_true
  have hrun : ∀ before batch after, batches = before ++ batch :: after →
      (WriterThread.run ring store.1 (before.map .ofCommands)).db =
        commitAll (Db.apply ring) store.1 before := by
    rintro before batch after rfl
    exact run_db store.1 fun b hb => hno b (List.mem_append_left _ hb)
  have hcommits : (∀ before batch after, batches = before ++ batch :: after →
      (applyBatch ring (WriterThread.run ring store.1 (before.map .ofCommands)).db
        (.ofCommands batch)).committed.isSome) ↔
      (applyAll (Db.apply ring) store.1 queue).isSome := by
    rw [← hcut, applyAll_flatten_isSome]
    refine forall_congr' fun before => forall_congr' fun batch => forall_congr' fun after =>
      forall_congr' fun hb => ?_
    rw [applyBatch_ofCommands_committed, hrun before batch after hb]
  constructor
  · intro h
    obtain ⟨db, hdb⟩ := Option.isSome_iff_exists.1 (hcommits.1 h.commits)
    refine ⟨?_, ?_⟩
    · intro before row ack between session after hqueue hid deadBefore txnBefore
      exact login_of_applyAll hq hdb hqueue hid
    · intro before row between deadBefore txnBefore between' genNo hash createdAt activeUntil after
        hqueue
      exact session_of_applyAll hq hdb hqueue
  · intro hu
    obtain ⟨db, hdb⟩ := applyAll_of_undisturbed hq hu queue [] (List.append_nil _).symm
    refine ⟨hcommits.2 (by rw [hdb]; rfl), ?_⟩
    intro before ahead row behind after hb
    have hqueue : queue = (before.flatten ++ ahead) ++ .session (.insertSession row) ::
        (behind ++ after.flatten) := by
      rw [← hcut, hb]
      simp
    obtain ⟨db', h'⟩ := applyAll_of_undisturbed hq hu _ _ hqueue
    obtain ⟨db₀, h₀, h₁⟩ := applyAll_append_eq_some.1 h'
    rw [hrun before _ after hb, commitAll_eq h₀]
    exact ⟨db', h₁, custody_there hq hu hqueue h'⟩

/-- The custody row of a login at `now`. -/
def grantRow (custodyId : String) (now : Timestamp) : FullCustodyRow where
  custodyId := ⟨custodyId⟩
  sub := "user"
  refreshTok := []
  accessTok := []
  accessExp := now.plusSecs 3600
  scope := none
  status := .ok
  nextRefresh := now.plusSecs 2700
  failCount := 0
  updatedAt := now
  providerId := "default"

/-- The session row of a login at `now`. -/
def loginRow (custodyId sid : String) (now : Timestamp) : SessionRow :=
  ⟨⟨sid⟩, ⟨custodyId⟩, "user", 1, now.plusSecs 86400, now.plusSecs 2592000, .alive, now, none⟩

/-- **A login broken by the reaper.**  The custody row is acknowledged, the
    hourly `Reap` runs, and the session that follows is refused. -/
theorem login_broken :
    let login := Command.custody (.insert (grantRow "c" ⟨5000⟩)) 0
    let reap := Command.reap ⟨4000⟩ ⟨4000⟩
    let session := Command.session (.insertSession (loginRow "c" "s" ⟨5000⟩))
    let generation := Command.session (.insertGeneration ⟨"s"⟩ 1 ⟨7⟩ ⟨5000⟩ ⟨8600⟩)
    LoginQueue (.fresh ⟨0⟩) [login, reap, session, generation] ∧
      ¬ Unbroken ⟨1, [1]⟩ (.fresh ⟨0⟩) [[login], [reap], [session], [generation]] := by
  intro login reap session generation
  refine ⟨⟨by decide, by decide, by decide, by decide, by decide, ?_, ?_⟩, fun h => ?_⟩
  · intro before row after h
    rcases before with _ | ⟨b₁, _ | ⟨b₂, _ | ⟨b₃, _ | ⟨b₄, before⟩⟩⟩⟩ <;>
      simp [login, reap, session, generation] at h
    obtain ⟨rfl, rfl, rfl, -⟩ := h
    decide
  · intro before sid genNo hash createdAt activeUntil after h
    rcases before with _ | ⟨b₁, _ | ⟨b₂, _ | ⟨b₃, _ | ⟨b₄, before⟩⟩⟩⟩ <;>
      simp [login, reap, session, generation] at h
    obtain ⟨rfl, rfl, rfl, ⟨rfl, -⟩, -⟩ := h
    decide
  · have := h.commits [[login], [reap]] [session] [[generation]] rfl
    revert this
    decide

/-- A `Reap` ahead of a login does it no harm. -/
theorem unbroken_iff_login :
    let login := Command.custody (.insert (grantRow "c" ⟨5000⟩)) 0
    let reap := Command.reap ⟨4000⟩ ⟨4000⟩
    let session := Command.session (.insertSession (loginRow "c" "s" ⟨5000⟩))
    let generation := Command.session (.insertGeneration ⟨"s"⟩ 1 ⟨7⟩ ⟨5000⟩ ⟨8600⟩)
    Unbroken ⟨1, [1]⟩ (.fresh ⟨0⟩) [[reap, login], [session, generation]] := by
  intro login reap session generation
  refine (unbroken_iff ⟨1, [1]⟩ ⟨_, Db.integrity_fresh ⟨0⟩⟩ [reap, login, session, generation]
    ⟨by decide, by decide, by decide, by decide, by decide, ?_, ?_⟩ _ rfl).2 ⟨?_, ?_⟩
  · intro before row after h
    rcases before with _ | ⟨b₁, _ | ⟨b₂, _ | ⟨b₃, _ | ⟨b₄, before⟩⟩⟩⟩ <;>
      simp [login, reap, session, generation] at h
    obtain ⟨rfl, rfl, rfl, -⟩ := h
    decide
  · intro before sid genNo hash createdAt activeUntil after h
    rcases before with _ | ⟨b₁, _ | ⟨b₂, _ | ⟨b₃, _ | ⟨b₄, before⟩⟩⟩⟩ <;>
      simp [login, reap, session, generation] at h
    obtain ⟨rfl, rfl, rfl, ⟨rfl, -⟩, -⟩ := h
    decide
  · intro before row ack between row' after h _ deadBefore txnBefore hm
    have hr : Command.reap deadBefore txnBefore ∈ [reap, login, session, generation].tail := by
      rw [h]
      cases before <;> simp [hm]
    simp [login, session, generation] at hr
  · intro before row between deadBefore txnBefore between' genNo hash createdAt activeUntil after h
    have hr : Command.reap deadBefore txnBefore ∈ [reap, login, session, generation].tail := by
      rw [h]
      cases before <;> simp
    simp [login, session, generation] at hr

end SessionBroker
