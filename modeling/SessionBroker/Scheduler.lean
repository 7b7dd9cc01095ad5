/-
  The keepalive scheduler (`keepalive.rs`): which custody is to be renewed
  when, and what the result of an attempt does to it.

  * the heap is its entries in the order in which they are popped;
  * the two floating-point expressions, jitter included, are a `Draw`: what
    they return for a lifetime and for a backoff;
  * `Ripe`: the custodies `take_due` may return.  `takeDue_takes` says that it
    returns those of them which the heap names early enough, marks these and
    leaves every other entry alone;
  * `Scheduler.takeDue_spec` and `Scheduler.record_spec` say what a tick takes
    and what an outcome leaves, of the health of a custody.
-/
import SessionBroker.Db

namespace SessionBroker

/-! ## Policy and outcomes -/

/-- `KeepalivePolicy`; its two fractions only enter a `Draw`. -/
structure KeepalivePolicy where
  baseBackoffSecs : ℕ := 1
  maxBackoffSecs : ℕ := 300
  maxConcurrent : ℕ := 8
  onUpstreamRevoked : RevocationPolicy := .kill
deriving DecidableEq, Repr

/-- The result of one attempt to refresh an upstream grant. -/
inductive RefreshOutcome where
  | success (lifetimeSecs : ℕ) (rotatedRefresh : Bool)
  | transient (retryAfterSecs : Option ℕ)
  | permanent
deriving DecidableEq, Repr

def RefreshOutcome.isSuccess : RefreshOutcome → Bool
  | success .. => true
  | _ => false

/-- What one draw of the jitter makes of a lifetime and of a backoff. -/
structure Draw where
  /-- `(lead + displacement).max(1.0) as u64` -/
  delay : ℕ → ℕ
  /-- `(exponential as f64 * jitter.unit()) as u64` -/
  scaled : ℕ → ℕ

/-- `next_refresh_at`. -/
def nextRefreshAt (issuedAt : Timestamp) (lifetimeSecs : ℕ) (draw : Draw) : Timestamp :=
  issuedAt.plusSecs (draw.delay lifetimeSecs)

/-- `backoff_secs`. -/
def backoffSecs (policy : KeepalivePolicy) (failCount : ℕ) (retryAfter : Option ℕ) (draw : Draw) :
    ℕ :=
  match retryAfter with
  | some secs => min secs policy.maxBackoffSecs
  | none =>
    let saturated := min (policy.baseBackoffSecs * 2 ^ min failCount 16) (2 ^ 64 - 1)
    max (draw.scaled (min saturated policy.maxBackoffSecs)) 1

/-! ## The scheduler -/

structure CustodyState where
  status : CustodyStatus
  accessExp : Timestamp
  nextRefresh : Timestamp
  /-- a `u32` -/
  failCount : ℕ
  refreshing : Bool
deriving DecidableEq, Repr

/-- `(i64, CustodyId)`, in its order. -/
abbrev DueEntry := ℤ × CustodyId

def DueEntry.Le (a b : DueEntry) : Prop := a.1 < b.1 ∨ a.1 = b.1 ∧ a.2.id ≤ b.2.id

instance : DecidableRel DueEntry.Le := fun _ _ => inferInstanceAs (Decidable (_ ∨ _))

structure Scheduler where
  policy : KeepalivePolicy
  entries : CustodyId → Option CustodyState
  due : List DueEntry

/-- A row of `custody_sched`. -/
structure CustodySchedule where
  custodyId : CustodyId
  accessExp : Timestamp
  nextRefresh : Timestamp
  status : CustodyStatus
  failCount : ℤ
deriving DecidableEq, Repr

/-- `live_custody_schedules`: dead rows are left out. -/
def Db.liveCustodySchedules (db : Db) : List CustodySchedule :=
  ((db.custody.filter fun c => c.status ≠ .dead).map fun c =>
    ⟨c.custodyId, c.accessExp, c.nextRefresh, c.status, c.failCount⟩).insertionSort
      fun a b => a.nextRefresh ≤ b.nextRefresh

namespace Scheduler

def new (policy : KeepalivePolicy) : Scheduler := ⟨policy, fun _ => none, []⟩

/-- An entry, and its place in the heap. -/
def put (s : Scheduler) (custody : CustodyId) (state : CustodyState) : Scheduler :=
  { s with
    entries := Function.update s.entries custody (some state)
    due := s.due.orderedInsert DueEntry.Le (state.nextRefresh.secs, custody) }

/-- `Scheduler::insert`. -/
def insert (s : Scheduler) (custody : CustodyId) (issuedAt : Timestamp) (lifetimeSecs : ℕ)
    (draw : Draw) : Scheduler :=
  s.put custody {
    status := .ok
    accessExp := issuedAt.plusSecs lifetimeSecs
    nextRefresh := nextRefreshAt issuedAt lifetimeSecs draw
    failCount := 0
    refreshing := false }

/-- `Scheduler::insert_restored`. -/
def insertRestored (s : Scheduler) (custody : CustodyId) (status : CustodyStatus)
    (accessExp nextRefresh : Timestamp) : Scheduler :=
  s.put custody { status, accessExp, nextRefresh, failCount := 0, refreshing := false }

/-- The loop of `take_due` over the heap. -/
def takeLoop (now : Timestamp) : List DueEntry → (CustodyId → Option CustodyState) →
    List CustodyId → List DueEntry × (CustodyId → Option CustodyState) × List CustodyId
  | [], entries, ready => ([], entries, ready)
  | entry :: due, entries, ready =>
    if now.secs < entry.1 then (entry :: due, entries, ready)
    else match entries entry.2 with
      | none => takeLoop now due entries ready
      | some state =>
        if now.secs < state.nextRefresh.secs ∨ state.refreshing = true ∨ state.status = .dead then
          takeLoop now due entries ready
        else
          takeLoop now due (Function.update entries entry.2 (some { state with refreshing := true }))
            (ready ++ [entry.2])

/-- `Scheduler::take_due`. -/
def takeDue (s : Scheduler) (now : Timestamp) : Scheduler × List CustodyId :=
  let r := takeLoop now s.due s.entries []
  ({ s with entries := r.2.1, due := r.1 }, r.2.2)

/-- `Scheduler::record`: the status the custody now has, if it is scheduled. -/
def record (s : Scheduler) (custody : CustodyId) (outcome : RefreshOutcome) (now : Timestamp)
    (draw : Draw) : Scheduler × Option CustodyStatus :=
  match s.entries custody with
  | none => (s, none)
  | some state =>
    match outcome with
    | .success lifetimeSecs _ =>
      (s.put custody {
        status := .ok
        accessExp := now.plusSecs lifetimeSecs
        nextRefresh := nextRefreshAt now lifetimeSecs draw
        failCount := 0
        refreshing := false }, some .ok)
    | .transient retryAfterSecs =>
      let failCount := min (state.failCount + 1) (2 ^ 32 - 1)
      let status : CustodyStatus := if state.accessExp ≤ now then .degraded else .ok
      (s.put custody { state with
        status
        nextRefresh := now.plusSecs (backoffSecs s.policy (failCount - 1) retryAfterSecs draw)
        failCount
        refreshing := false }, some status)
    | .permanent =>
      -- no place in the heap: nothing will make this grant work
      let dead : CustodyState := { state with status := .dead, nextRefresh := now, refreshing := false }
      ({ s with entries := Function.update s.entries custody (some dead) }, some .dead)

/-! ## The loop of `take_due` -/

/-- What `take_due` may return at `now`. -/
def Ripe (now : Timestamp) (entries : CustodyId → Option CustodyState) (custody : CustodyId) : Prop :=
  ∃ st, entries custody = some st ∧ st.nextRefresh ≤ now ∧ st.refreshing = false ∧ st.status ≠ .dead

/-- The entries with some of them marked in flight. -/
def mark (taken : List CustodyId) (entries : CustodyId → Option CustodyState)
    (custody : CustodyId) : Option CustodyState :=
  if custody ∈ taken then (entries custody).map ({ · with refreshing := true }) else entries custody

/-- How far the loop of `take_due` gets, and what it takes on the way. -/
structure Takes (now : Timestamp) (due : List DueEntry)
    (entries : CustodyId → Option CustodyState) (ready : List CustodyId)
    (r : List DueEntry × (CustodyId → Option CustodyState) × List CustodyId)
    (popped : List DueEntry) (taken : List CustodyId) : Prop where
  due : due = popped ++ r.1
  early : ∀ entry ∈ popped, entry.1 ≤ now.secs
  late : ∀ entry ∈ r.1.head?, now.secs < entry.1
  ready : r.2.2 = ready ++ taken
  nodup : taken.Nodup
  mem : ∀ c, c ∈ taken ↔ Ripe now entries c ∧ c ∈ popped.map Prod.snd
  entries : r.2.1 = mark taken entries

section
variable {now : Timestamp} {entries : CustodyId → Option CustodyState} {custody : CustodyId}

/-- A marked custody is not taken again. -/
theorem ripe_mark {st : CustodyState} (h : entries custody = some st) (c : CustodyId) :
    Ripe now (Function.update entries custody (some { st with refreshing := true })) c ↔
      Ripe now entries c ∧ c ≠ custody := by
  by_cases hc : c = custody
  · subst hc
    simp [Ripe]
  · simp [Ripe, hc]

theorem mark_cons {taken : List CustodyId} {st : CustodyState} (h : entries custody = some st)
    (hn : custody ∉ taken) :
    mark taken (Function.update entries custody (some { st with refreshing := true })) =
      mark (custody :: taken) entries := by
  ext1 c
  by_cases hc : c = custody
  · subst hc
    simp [mark, hn, h]
  · simp [mark, hc]

variable (now) in
theorem takeLoop_takes (due : List DueEntry) (entries : CustodyId → Option CustodyState)
    (ready : List CustodyId) :
    ∃ popped taken, Takes now due entries ready (takeLoop now due entries ready) popped taken := by
  induction due generalizing entries ready with
  | nil =>
    refine ⟨[], [], rfl, by simp, by simp [takeLoop], by simp [takeLoop], List.nodup_nil, by simp, ?_⟩
    ext1 c
    simp [takeLoop, mark]
  | cons entry due ih =>
    rw [takeLoop]
    split_ifs with hlater
    · refine ⟨[], [], rfl, by simp, ?_, by simp, List.nodup_nil, by simp, ?_⟩
      · intro e he
        obtain rfl : entry = e := by simpa using he
        exact hlater
      · ext1 c
        simp [mark]
    -- an entry that is skipped names nothing that may be taken
    have hskip (hr : ¬ Ripe now entries entry.2) : ∃ popped taken,
        Takes now (entry :: due) entries ready (takeLoop now due entries ready) popped taken := by
      obtain ⟨popped, taken, h⟩ := ih entries ready
      refine ⟨entry :: popped, taken, ?_, ?_, h.late, h.ready, h.nodup, fun c => ?_, h.entries⟩
      · rw [List.cons_append, ← h.due]
      · rintro e (_ | ⟨_, he⟩)
        · omega
        · exact h.early e he
      · rw [h.mem, List.map_cons, List.mem_cons]
        constructor
        · exact fun hc => ⟨hc.1, Or.inr hc.2⟩
        · rintro ⟨hc, rfl | hp⟩
          · exact absurd hc hr
          · exact ⟨hc, hp⟩
    cases he : entries entry.2 with
    | none =>
      refine hskip ?_
      rintro ⟨st, hst, -⟩
      rw [he] at hst
      cases hst
    | some state =>
      dsimp only
      split_ifs with hstate
      · refine hskip ?_
        rintro ⟨st, hst, hdue, hfree, hlive⟩
        obtain rfl : state = st := by simpa [he] using hst
        rcases hstate with h | h | h
        · exact absurd hdue (not_le.2 h)
        · rw [hfree] at h
          cases h
        · exact hlive h
      · rw [not_or, not_or] at hstate
        have hripe : Ripe now entries entry.2 :=
          ⟨state, he, not_lt.1 hstate.1, Bool.eq_false_of_not_eq_true hstate.2.1, hstate.2.2⟩
        obtain ⟨popped, taken, h⟩ := ih
          (Function.update entries entry.2 (some { state with refreshing := true })) (ready ++ [entry.2])
        have hnot : entry.2 ∉ taken := fun hm => ((ripe_mark he _).1 ((h.mem _).1 hm).1).2 rfl
        refine ⟨entry :: popped, entry.2 :: taken, ?_, ?_, h.late, ?_, ?_, fun c => ?_, ?_⟩
        · rw [List.cons_append, ← h.due]
        · rintro e (_ | ⟨_, he⟩)
          · omega
          · exact h.early e he
        · rw [h.ready, List.append_assoc]
          rfl
        · exact List.nodup_cons.2 ⟨hnot, h.nodup⟩
        · rw [List.mem_cons, h.mem, ripe_mark he, List.map_cons, List.mem_cons]
          constructor
          · rintro (rfl | ⟨⟨hc, -⟩, hp⟩)
            · exact ⟨hripe, Or.inl rfl⟩
            · exact ⟨hc, Or.inr hp⟩
          · rintro ⟨hc, hp⟩
            by_cases heq : c = entry.2
            · exact Or.inl heq
            · exact Or.inr ⟨⟨hc, heq⟩, hp.resolve_left heq⟩
        · rw [h.entries, mark_cons he hnot]

variable {s : Scheduler}

/-- **What a tick takes**: the ripe custodies which the heap names, each once,
    and it marks them. -/
theorem takeDue_takes (s : Scheduler) (now : Timestamp) : ∃ popped,
    s.due = popped ++ (s.takeDue now).1.due ∧
    (∀ entry ∈ popped, entry.1 ≤ now.secs) ∧
    (∀ entry ∈ (s.takeDue now).1.due.head?, now.secs < entry.1) ∧
    (s.takeDue now).2.Nodup ∧
    (∀ c, c ∈ (s.takeDue now).2 ↔ Ripe now s.entries c ∧ c ∈ popped.map Prod.snd) ∧
    (s.takeDue now).1.entries = mark (s.takeDue now).2 s.entries := by
  obtain ⟨popped, taken, h⟩ := takeLoop_takes now s.due s.entries []
  have htaken : (s.takeDue now).2 = taken := h.ready
  exact ⟨popped, h.due, h.early, h.late, htaken ▸ h.nodup, htaken ▸ h.mem, htaken ▸ h.entries⟩

theorem ripe_of_mem_takeDue (h : custody ∈ (s.takeDue now).2) : Ripe now s.entries custody := by
  obtain ⟨popped, -, -, -, -, hmem, -⟩ := takeDue_takes s now
  exact ((hmem custody).1 h).1

theorem takeDue_entries (s : Scheduler) (now : Timestamp) :
    (s.takeDue now).1.entries = mark (s.takeDue now).2 s.entries := by
  obtain ⟨popped, -, -, -, -, -, h⟩ := takeDue_takes s now
  exact h

end

/-! ## What they do to the health of a custody -/

/-- The health the scheduler holds. -/
def statusOf (s : Scheduler) (custody : CustodyId) : Option CustodyStatus :=
  (s.entries custody).map (·.status)

section
variable {s : Scheduler} {custody : CustodyId} {now : Timestamp} {draw : Draw}

theorem statusOf_put (s : Scheduler) (custody : CustodyId) (state : CustodyState)
    (custody' : CustodyId) : (s.put custody state).statusOf custody' =
      if custody' = custody then some state.status else s.statusOf custody' := by
  simp only [statusOf, put, Function.update_apply]
  split_ifs <;> rfl

variable (s now) in
/-- **What a tick takes** is scheduled and not dead, each custody once. -/
theorem takeDue_spec : (∀ c, (s.takeDue now).1.statusOf c = s.statusOf c) ∧
    (s.takeDue now).2.Nodup ∧
    ∀ c ∈ (s.takeDue now).2, ∃ status, (s.takeDue now).1.statusOf c = some status ∧ status ≠ .dead := by
  obtain ⟨popped, -, -, -, hnodup, hmem, hentries⟩ := takeDue_takes s now
  have hstatus : ∀ c, (s.takeDue now).1.statusOf c = s.statusOf c := by
    intro c
    rw [statusOf, hentries, mark]
    split_ifs
    · rw [Option.map_map]
      rfl
    · rfl
  refine ⟨hstatus, hnodup, fun c hc => ?_⟩
  obtain ⟨⟨st, hst, -, -, hlive⟩, -⟩ := (hmem c).1 hc
  exact ⟨st.status, by rw [hstatus, statusOf, hst, Option.map_some], hlive⟩

variable (s custody now draw) in
/-- **What an outcome leaves.**  Only this custody's health moves, `Permanent`
    alone makes it dead, and an unknown custody is left alone. -/
theorem record_spec (outcome : RefreshOutcome) :
    (∀ c, c ≠ custody → (s.record custody outcome now draw).1.statusOf c = s.statusOf c) ∧
    (s.record custody outcome now draw).1.statusOf custody = (s.record custody outcome now draw).2 ∧
    ((s.record custody outcome now draw).2.isSome ↔ (s.statusOf custody).isSome) ∧
    ((s.record custody outcome now draw).2 = some .dead ↔
      outcome = .permanent ∧ (s.statusOf custody).isSome) := by
  unfold record
  cases he : s.entries custody with
  | none => simp [statusOf, he]
  | some state =>
    have hsome : (s.statusOf custody).isSome := by simp [statusOf, he]
    have hput : ∀ (state' : CustodyState) c, c ≠ custody →
        (s.put custody state').statusOf c = s.statusOf c := fun state' c hc => by
      rw [statusOf_put, if_neg hc]
    have hself : ∀ state' : CustodyState,
        (s.put custody state').statusOf custody = some state'.status := fun state' => by
      rw [statusOf_put, if_pos rfl]
    cases outcome with
    | success lifetimeSecs rotatedRefresh =>
      exact ⟨hput _, hself _, by simp [hsome], by simp⟩
    | transient retryAfterSecs =>
      refine ⟨hput _, hself _, by simp [hsome], ?_⟩
      dsimp only
      split_ifs <;> simp
    | permanent =>
      refine ⟨fun c hc => ?_, ?_, by simp [hsome], by simp [hsome]⟩
      · simp only [statusOf, Function.update_of_ne hc]
      · simp only [statusOf, Function.update_self, Option.map_some]

@[simp] theorem takeDue_policy : (s.takeDue now).1.policy = s.policy := rfl

@[simp] theorem record_policy (outcome : RefreshOutcome) :
    (s.record custody outcome now draw).1.policy = s.policy := by
  unfold record
  split
  · rfl
  · split <;> rfl

end

end Scheduler

/-- `restore_keepalive_schedule`: what is overdue is spread over thirty
    seconds. -/
def restoreKeepaliveSchedule (db : Db) (s : Scheduler) (now : Timestamp) : Scheduler :=
  let rows := db.liveCustodySchedules
  rows.zipIdx.foldl (fun s r =>
    let nextRefresh :=
      if r.1.nextRefresh.secs ≤ now.secs then now.plusSecs (r.2 * 30 / max rows.length 1)
      else r.1.nextRefresh
    s.insertRestored r.1.custodyId r.1.status r.1.accessExp nextRefresh) s

@[simp] theorem restore_policy (db : Db) (s : Scheduler) (now : Timestamp) :
    (restoreKeepaliveSchedule db s now).policy = s.policy := by
  unfold restoreKeepaliveSchedule
  generalize db.liveCustodySchedules = rows
  suffices h : ∀ (n : ℕ) (rows : List (CustodySchedule × ℕ)) (s : Scheduler),
      (rows.foldl (fun s r => s.insertRestored r.1.custodyId r.1.status r.1.accessExp
        (if r.1.nextRefresh.secs ≤ now.secs then now.plusSecs (r.2 * 30 / n)
          else r.1.nextRefresh)) s).policy = s.policy from h _ _ s
  intro n rows
  induction rows with
  | nil => exact fun _ => rfl
  | cons r rows ih => exact fun s => ih _

theorem mem_liveCustodySchedules {db : Db} {r : CustodySchedule}
    (h : r ∈ db.liveCustodySchedules) :
    r.status ≠ .dead ∧ ∃ c ∈ db.custody, c.custodyId = r.custodyId ∧ c.status = r.status := by
  rw [Db.liveCustodySchedules, List.mem_insertionSort] at h
  obtain ⟨c, hc, rfl⟩ := List.mem_map.1 h
  obtain ⟨hc, hd⟩ := List.mem_filter.1 hc
  exact ⟨of_decide_eq_true hd, c, hc, rfl, rfl⟩

/-- **What a boot schedules** is in the store, and not dead there. -/
theorem statusOf_restore {db : Db} {policy : KeepalivePolicy} {now : Timestamp}
    {custody : CustodyId} {status : CustodyStatus}
    (h : (restoreKeepaliveSchedule db (.new policy) now).statusOf custody = some status) :
    status ≠ .dead ∧ ∃ c ∈ db.custody, c.custodyId = custody ∧ c.status = status := by
  have hfold : ∀ (rows : List (CustodySchedule × ℕ)) (n : ℕ) (s : Scheduler),
      (∀ r ∈ rows, r.1 ∈ db.liveCustodySchedules) →
      (∀ status, s.statusOf custody = some status →
        status ≠ .dead ∧ ∃ c ∈ db.custody, c.custodyId = custody ∧ c.status = status) →
      ∀ status, (rows.foldl (fun s r => s.insertRestored r.1.custodyId r.1.status r.1.accessExp
          (if r.1.nextRefresh.secs ≤ now.secs then now.plusSecs (r.2 * 30 / max n 1)
            else r.1.nextRefresh)) s).statusOf custody = some status →
        status ≠ .dead ∧ ∃ c ∈ db.custody, c.custodyId = custody ∧ c.status = status := by
    intro rows n
    induction rows with
    | nil => exact fun s _ hs => hs
    | cons r rows ih =>
      intro s hrows hs
      refine ih _ (fun r hr => hrows r (List.mem_cons_of_mem _ hr)) fun status hst => ?_
      simp only [Scheduler.insertRestored, Scheduler.statusOf_put] at hst
      split_ifs at hst with hc
      · cases hst
        rw [hc]
        exact mem_liveCustodySchedules (hrows r (List.mem_cons_self ..))
      · exact hs status hst
  refine hfold _ _ (.new policy) (fun r hr => ?_) (fun status hst => by cases hst) status h
  exact List.fst_mem_of_mem_zipIdx hr

end SessionBroker
