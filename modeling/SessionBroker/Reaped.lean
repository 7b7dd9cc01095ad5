/-
  What one `reap` removes (`store/repo.rs`).

  * `mem_reap_session`, `mem_reap_generation`, `mem_reap_custody`: the rows
    left of each table;
  * `RemovesOnlyDead`: the constraints hold after every statement, what is
    alive stays whole, and a row goes only on the word of a timestamp.
-/
import SessionBroker.Integrity

namespace SessionBroker.Db

open Table

variable {db : Db} {deadBefore txnBefore : Timestamp}

/-! ## The rows left -/

/-- A session is judged on its own row. -/
theorem mem_reap_session (h : db.Integrity) {s : SessionRecord} :
    s ∈ (db.reap deadBefore txnBefore).1.session ↔
      s ∈ db.session ∧ doomed deadBefore s = false := by
  refine mem_deleteWhere.trans (and_congr_right fun hs => ?_)
  rw [← Bool.not_eq_true (doomed deadBefore s), ← h.mem_dead hs]
  exact decide_eq_false_iff_not

theorem mem_reap_generation {g : GenerationRow} :
    g ∈ (db.reap deadBefore txnBefore).1.generation ↔
      g ∈ db.generation ∧ g.sid ∉ db.dead deadBefore :=
  mem_deleteWhere.trans (and_congr_right fun _ => decide_eq_false_iff_not)

theorem mem_reap_custody {c : CustodyRecord} :
    c ∈ (db.reap deadBefore txnBefore).1.custody ↔
      c ∈ db.custody ∧
        ∃ s ∈ (db.reap deadBefore txnBefore).1.session, s.row.custodyId = c.custodyId := by
  refine mem_deleteWhere.trans (and_congr_right fun _ => ?_)
  rw [decide_eq_false_iff_not, not_not]
  exact List.mem_map

/-- A session that is kept keeps its generations, in their order. -/
theorem reap_generations_of (h : db.Integrity) {s : SessionRecord} (hs : s ∈ db.session)
    (hkeep : doomed deadBefore s = false) :
    ((db.reap deadBefore txnBefore).1.generation.filter fun g => g.sid = s.row.sid) =
      db.generation.filter fun g => g.sid = s.row.sid := by
  have hsid : s.row.sid ∉ db.dead deadBefore := by rw [h.mem_dead hs, hkeep]; exact Bool.false_ne_true
  change List.filter _ (deleteWhere (fun g => g.sid ∈ db.dead deadBefore) db.generation) = _
  rw [deleteWhere, List.filter_filter]
  refine List.filter_congr fun g _ => ?_
  by_cases hg : g.sid = s.row.sid
  · simp [hg, hsid]
  · simp [hg]

/-- Who is not tombstoned goes at the ceiling only. -/
theorem doomed_of_alive {s : SessionRecord} (hs : s.row.status = .alive) :
    doomed deadBefore s = true ↔ s.row.absoluteExp < deadBefore := by
  simp [doomed, hs]

/-- A tombstone of unknown age is judged on the ceiling. -/
theorem doomed_of_undated {s : SessionRecord} (hs : s.tombstonedAt = none) :
    doomed deadBefore s = true ↔ s.row.absoluteExp < deadBefore := by
  simp [doomed, hs]

theorem doomed_of_tombstoned {s : SessionRecord} (hs : s.row.status = .tombstoned) :
    doomed deadBefore s = true ↔
      (∃ at_, s.tombstonedAt = some at_ ∧ at_ < deadBefore) ∨ s.row.absoluteExp < deadBefore := by
  simp [doomed, hs, Option.any_eq_true]

/-! ## One reap -/

/-- The store after each statement of `reap`. -/
def reapStatements (db : Db) (deadBefore txnBefore : Timestamp) : List Db :=
  let generations := db.reapGenerations deadBefore
  let sessions := generations.reapSessions deadBefore
  let txns := sessions.deleteExpiredTxns txnBefore
  [generations, sessions, txns, txns.reapCustody]

theorem getLast?_reapStatements (db : Db) (deadBefore txnBefore : Timestamp) :
    (db.reapStatements deadBefore txnBefore).getLast? = some (db.reap deadBefore txnBefore).1 :=
  rfl

theorem Integrity.reapStatements (h : db.Integrity) :
    ∀ store ∈ db.reapStatements deadBefore txnBefore, store.Integrity := by
  have hg := h.reapGenerations deadBefore
  have hs := hg.reapSessions fun _ => not_dead_of_mem_reapGenerations
  have ht := hs.deleteExpiredTxns txnBefore
  intro store hstore
  simp only [Db.reapStatements, List.mem_cons, List.not_mem_nil, or_false] at hstore
  obtain rfl | rfl | rfl | rfl := hstore
  exacts [hg, hs, ht, ht.reapCustody]

/-- What `reap` may do to `db` with this cutoff. -/
structure RemovesOnlyDead (db : Db) (deadBefore txnBefore : Timestamp) : Prop where
  /-- No statement meets a foreign key it would break. -/
  statements : ∀ store ∈ db.reapStatements deadBefore txnBefore, store.Integrity
  integrity : (db.reap deadBefore txnBefore).1.Integrity
  living : ∀ s ∈ db.session, s.row.status = .alive → deadBefore ≤ s.row.absoluteExp →
    s ∈ (db.reap deadBefore txnBefore).1.session ∧
    ((db.reap deadBefore txnBefore).1.generation.filter fun g => g.sid = s.row.sid) =
      (db.generation.filter fun g => g.sid = s.row.sid) ∧
    ∃ c ∈ db.custody, c.custodyId = s.row.custodyId ∧
      c ∈ (db.reap deadBefore txnBefore).1.custody
  tombstoned : ∀ s ∈ db.session, s.row.status = .tombstoned →
    s ∉ (db.reap deadBefore txnBefore).1.session →
    (∃ at_, s.tombstonedAt = some at_ ∧ at_ < deadBefore) ∨ s.row.absoluteExp < deadBefore
  undated : ∀ s ∈ db.session, s.tombstonedAt = none →
    (s ∉ (db.reap deadBefore txnBefore).1.session ↔ s.row.absoluteExp < deadBefore)
  custody : ∀ c, c ∈ (db.reap deadBefore txnBefore).1.custody ↔
    c ∈ db.custody ∧
      ∃ s ∈ (db.reap deadBefore txnBefore).1.session, s.row.custodyId = c.custodyId
  /-- Nothing appears that was not there. -/
  sessions : ∀ s ∈ (db.reap deadBefore txnBefore).1.session, s ∈ db.session

/-- **Reaping removes only what is dead**, whatever the cutoffs. -/
theorem reap_removesOnlyDead (h : db.Integrity) (deadBefore txnBefore : Timestamp) :
    db.RemovesOnlyDead deadBefore txnBefore := by
  have hgone {s} (hs : s ∈ db.session) :
      s ∉ (db.reap deadBefore txnBefore).1.session ↔ doomed deadBefore s = true := by
    rw [mem_reap_session h, not_and, Bool.not_eq_false]
    exact ⟨fun hd => hd hs, fun hd _ => hd⟩
  constructor
  case statements => exact h.reapStatements
  case integrity => exact h.reap deadBefore txnBefore
  case living =>
    intro s hs halive hexp
    have hkeep : doomed deadBefore s = false := by
      rw [← Bool.not_eq_true, doomed_of_alive halive]
      exact not_lt.2 hexp
    have hstays : s ∈ (db.reap deadBefore txnBefore).1.session := (mem_reap_session h).2 ⟨hs, hkeep⟩
    obtain ⟨c, hc, hk⟩ := h.sessionCustody s hs
    exact ⟨hstays, reap_generations_of h hs hkeep, c, hc, hk,
      mem_reap_custody.2 ⟨hc, s, hstays, hk.symm⟩⟩
  case tombstoned =>
    intro s hs htomb hout
    exact (doomed_of_tombstoned htomb).1 ((hgone hs).1 hout)
  case undated => exact fun s hs hnone => (hgone hs).trans (doomed_of_undated hnone)
  case custody => exact fun c => mem_reap_custody
  case sessions => exact fun s hs => ((mem_reap_session h).1 hs).1

/-! ## A table of three -/

/-- Someone signed in, a tombstone from 4 and one from before there were dates. -/
def threeSessions : Db :=
  let session (id : String) (status : SessionStatus) (tombstonedAt : Option Timestamp) :
      SessionRecord :=
    ⟨⟨⟨id⟩, ⟨id⟩, "ada", 0, ⟨50⟩, ⟨50⟩, status, ⟨0⟩, none⟩, tombstonedAt, "default"⟩
  let custody (id : String) : CustodyRecord :=
    ⟨⟨id⟩, "ada", .empty, .empty, ⟨50⟩, none, .ok, ⟨50⟩, 0, ⟨0⟩, "default"⟩
  { fresh ⟨0⟩ with
    custody := [custody "a", custody "b", custody "c"]
    session := [session "a" .alive none, session "b" .tombstoned (some ⟨4⟩),
      session "c" .tombstoned none]
    generation := [⟨⟨1⟩, ⟨"a"⟩, 0, ⟨0⟩, ⟨50⟩, none⟩, ⟨⟨2⟩, ⟨"b"⟩, 0, ⟨0⟩, ⟨50⟩, none⟩] }

theorem integrity_threeSessions : threeSessions.Integrity :=
  { integrity_fresh ⟨0⟩ with
    custodyKey := by unfold UniqueOn; decide
    keyed := ⟨by decide, by decide⟩
    linked := ⟨by unfold Refs; decide, by unfold Refs; decide⟩ }

theorem reap_removesOnlyDead_three :
    threeSessions.RemovesOnlyDead ⟨10⟩ ⟨10⟩ ∧
      (threeSessions.reap ⟨10⟩ ⟨10⟩).2 = ⟨1, 1, 0, 1⟩ :=
  ⟨reap_removesOnlyDead integrity_threeSessions ⟨10⟩ ⟨10⟩, by decide⟩

end SessionBroker.Db
