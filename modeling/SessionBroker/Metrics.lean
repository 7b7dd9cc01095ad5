/-
  The counters and histograms of the broker (`telemetry/metrics.rs`).

  A family looks its labels up under a read lock, and takes the write lock only
  where they are not there; what it returns is counted up one atomic at a time.
  A `Recorder` takes these steps in order, and any other recorder may come
  between two of them.

  * `exported`: what a counter holds;
  * `owed`: what a recorder has still to count, `given` what all of them count;
  * `nothing_lost`: no order of the steps loses or invents a count.

  The atomics are relaxed: an addition acts on the last value of its own cell,
  which is all that is used here.  The queue depth, a gauge that the audit sink
  stores into, is left out.
-/
import SessionBroker.Lib.Run
import SessionBroker.Lib.Lookup
import Mathlib.Algebra.BigOperators.Group.List.Basic
import Mathlib.Data.UInt
import Mathlib.Logic.Function.Basic
import Mathlib.Tactic.Abel

namespace SessionBroker.Telemetry

open Runs

/-! ## What is recorded -/

/-- `LATENCY_BUCKETS`, in nanoseconds and as they are printed.  The bounds are
    decimals of five digits, so that `f64` compares an elapsed time with them as
    if both were exact. -/
def latencyBuckets : List (ℕ × String) :=
  [(50000, "0.00005"), (100000, "0.0001"), (250000, "0.00025"), (500000, "0.0005"), (1000000, "0.001"),
    (2500000, "0.0025"), (5000000, "0.005"), (10000000, "0.01"), (25000000, "0.025"), (50000000, "0.05"),
    (100000000, "0.1"), (250000000, "0.25"), (500000000, "0.5"), (1000000000, "1"), (2500000000, "2.5"),
    (5000000000, "5"), (10000000000, "10")]

/-- The atomics of a counter, and of a histogram. -/
inductive Slot where
  | value
  | bucket (i : ℕ)
  | sumMicros
  | count
deriving DecidableEq, Repr

/-- One `fetch_add`. -/
structure Add where
  slot : Slot
  amount : UInt64
deriving DecidableEq

/-- `fetch_add(count, …)` on a counter. -/
def bump (count : UInt64) : List Add := [⟨.value, count⟩]

/-- `Histogram::observe`, of nanoseconds. -/
def observe (elapsed : ℕ) : List Add :=
  ((latencyBuckets.zipIdx.filter fun bound => elapsed ≤ bound.1.1).map fun bound => ⟨.bucket bound.2, 1⟩) ++
    [⟨.sumMicros, .ofNat (elapsed / 1000)⟩, ⟨.count, 1⟩]

/-- The fields of `Metrics` that are families. -/
inductive FamilyName where
  | httpRequests
  | httpDuration
  | authzDecisions
  | sessionRefresh
  | tokenExchanges
  | tokensIssued
  | sessionAnomalies
  | keepaliveRefresh
  | rateLimited
  | auditRecorded
deriving DecidableEq, Repr

/-- What is counted: under labels, or by a field of its own. -/
inductive Target where
  | family (name : FamilyName) (labels : List String)
  | keepaliveDuration
  | auditDropped
  | auditFailed
deriving DecidableEq, Repr

/-- The calls of `Metrics`. -/
inductive Recording where
  | request (lane route : String) (status elapsed : ℕ)
  | authz (decision reason : String)
  | refresh (outcome : String)
  | tokenExchange (outcome : String)
  | tokenIssued (kind outcome : String)
  | anomaly (kind : String)
  | keepalive (outcome : String) (elapsed : Option ℕ)
  | rateLimited (lane bucket : String)
  | audit (tier : String)
  | auditDropped (count : UInt64)
  | auditFailed
deriving DecidableEq

/-- What a call adds, in order. -/
def Recording.writes : Recording → List (Target × List Add)
  | request lane route status elapsed =>
    [(.family .httpRequests [lane, route, toString status], bump 1),
      (.family .httpDuration [lane, route], observe elapsed)]
  | authz decision reason => [(.family .authzDecisions [decision, reason], bump 1)]
  | refresh outcome => [(.family .sessionRefresh [outcome], bump 1)]
  | tokenExchange outcome => [(.family .tokenExchanges [outcome], bump 1)]
  | tokenIssued kind outcome => [(.family .tokensIssued [kind, outcome], bump 1)]
  | anomaly kind => [(.family .sessionAnomalies [kind], bump 1)]
  | keepalive outcome elapsed =>
    (.family .keepaliveRefresh [outcome], bump 1) ::
      (elapsed.map fun elapsed => (.keepaliveDuration, observe elapsed)).toList
  | rateLimited lane bucket => [(.family .rateLimited [lane, bucket], bump 1)]
  | audit tier => [(.family .auditRecorded [tier], bump 1)]
  | auditDropped count => [(.auditDropped, bump count)]
  | auditFailed => [(.auditFailed, bump 1)]

/-! ## State -/

/-- Where atomics are: behind an `Arc`, or in a field. -/
inductive Cell where
  | arc (n : ℕ)
  | keepaliveDuration
  | auditDropped
  | auditFailed
deriving DecidableEq, Repr

/-- `Metrics`: each family a map from labels to an `Arc`, of those allocated so far. -/
structure Metrics where
  inner : FamilyName → List (List String × ℕ)
  cells : Cell → Slot → UInt64
  arcs : ℕ

namespace Metrics

/-- `Metrics::new`. -/
def new : Metrics := ⟨fun _ => [], fun _ _ => 0, 0⟩

/-- The cell of a target, if it has one yet. -/
def cellOf (m : Metrics) : Target → Option Cell
  | .family name labels => ((m.inner name).lookup labels).map .arc
  | .keepaliveDuration => some .keepaliveDuration
  | .auditDropped => some .auditDropped
  | .auditFailed => some .auditFailed

/-- `fetch_add`: it wraps. -/
def fetchAdd (m : Metrics) (cell : Cell) (add : Add) : Metrics :=
  let slots := m.cells cell
  { m with
    cells := Function.update m.cells cell (Function.update slots add.slot (slots add.slot + add.amount)) }

/-- `entry(key).or_insert_with`, under the write lock. -/
def orInsert (m : Metrics) (name : FamilyName) (labels : List String) : Metrics × Cell :=
  match (m.inner name).lookup labels with
  | some n => (m, .arc n)
  | none =>
    ({ m with
        inner := Function.update m.inner name (m.inner name ++ [(labels, m.arcs)])
        cells := Function.update m.cells (.arc m.arcs) fun _ => 0
        arcs := m.arcs + 1 }, .arc m.arcs)

/-- What a target holds, a family without the labels having none. -/
def exported (m : Metrics) (target : Target) (slot : Slot) : UInt64 :=
  ((m.cellOf target).map fun cell => m.cells cell slot).getD 0

end Metrics

/-- Between two steps of a call. -/
inductive Phase where
  | idle
  /-- Not found under the read lock. -/
  | missed (name : FamilyName) (labels : List String) (adds : List Add)
  | adding (target : Target) (cell : Cell) (adds : List Add)
deriving DecidableEq

/-- A thread in a call. -/
structure Recorder where
  writes : List (Target × List Add)
  phase : Phase
deriving DecidableEq

/-- The next write: a field is there, a family is looked up. -/
def startWrite (m : Metrics) : List (Target × List Add) → Recorder
  | [] => ⟨[], .idle⟩
  | (target, adds) :: writes =>
    match m.cellOf target, target with
    | some cell, _ => ⟨writes, .adding target cell adds⟩
    | none, .family name labels => ⟨writes, .missed name labels adds⟩
    | none, _ => ⟨writes, .idle⟩

/-- One step of a thread. -/
def Recorder.advance (m : Metrics) (r : Recorder) : Metrics × Recorder :=
  match r.phase with
  | .idle | .adding _ _ [] => (m, startWrite m r.writes)
  | .missed name labels adds =>
    let (m, cell) := m.orInsert name labels
    (m, ⟨r.writes, .adding (.family name labels) cell adds⟩)
  | .adding target cell (add :: adds) => (m.fetchAdd cell add, ⟨r.writes, .adding target cell adds⟩)

/-- The metrics, and everyone who records. -/
structure Recorders where
  metrics : Metrics
  threads : List Recorder

namespace Recorders

inductive Action where
  /-- A call begins. -/
  | record (r : Recording)
  /-- The `i`th call takes its next step. -/
  | advance (i : ℕ)
deriving DecidableEq

def step (s : Recorders) : Action → Recorders
  | .record r => { s with threads := s.threads ++ [⟨r.writes, .idle⟩] }
  | .advance i =>
    match s.threads[i]? with
    | none => s
    | some r =>
      let (metrics, r) := r.advance s.metrics
      ⟨metrics, s.threads.set i r⟩

def new : Recorders := ⟨.new, []⟩

end Recorders

/-! ## The books -/

/-- What additions come to, on one atomic. -/
def total (adds : List Add) (slot : Slot) : UInt64 :=
  ((adds.filter (·.slot = slot)).map (·.amount)).sum

/-- What writes come to, on one atomic of a target. -/
def due (writes : List (Target × List Add)) (target : Target) (slot : Slot) : UInt64 :=
  ((writes.filter (·.1 = target)).map (total ·.2 slot)).sum

/-- What is left of the write that a call is in. -/
def Phase.owed (target : Target) (slot : Slot) : Phase → UInt64
  | .idle => 0
  | .missed name labels adds => due [(.family name labels, adds)] target slot
  | .adding t _ adds => due [(t, adds)] target slot

/-- What a call has still to count. -/
def Recorder.owed (target : Target) (slot : Slot) (r : Recorder) : UInt64 :=
  r.phase.owed target slot + due r.writes target slot

/-- All that was given to count. -/
def given (target : Target) (slot : Slot) (actions : List Recorders.Action) : UInt64 :=
  (actions.map fun
    | .record r => due r.writes target slot
    | .advance _ => 0).sum

section
variable {target t : Target} {slot : Slot} {add : Add} {adds : List Add} {writes : List (Target × List Add)}

@[simp] theorem total_nil : total [] slot = 0 := rfl

@[simp] theorem total_cons : total (add :: adds) slot =
    (if add.slot = slot then add.amount else 0) + total adds slot := by
  unfold total
  by_cases h : add.slot = slot
  · simp [h]
  · simp [h]

@[simp] theorem due_nil : due [] target slot = 0 := rfl

@[simp] theorem due_cons : due ((t, adds) :: writes) target slot =
    (if t = target then total adds slot else 0) + due writes target slot := by
  unfold due
  by_cases h : t = target
  · simp [h]
  · simp [h]

end

namespace Metrics

/-- No two targets share a cell, and no family has a key twice. -/
structure WellKept (m : Metrics) : Prop where
  nodup : ∀ name, ((m.inner name).map (·.1)).Nodup
  allocated : ∀ name labels n, (m.inner name).lookup labels = some n → n < m.arcs
  apart : ∀ name labels name' labels' n, (m.inner name).lookup labels = some n →
    (m.inner name').lookup labels' = some n → name = name' ∧ labels = labels'

section
variable {m : Metrics} {target t : Target} {slot : Slot} {cell : Cell} {add : Add}

theorem wellKept_new : new.WellKept := by
  constructor <;> simp [new]

theorem WellKept.cellOf_inj (h : m.WellKept) (ht : m.cellOf t = some cell)
    (htarget : m.cellOf target = some cell) : t = target := by
  cases t with
  | family name labels =>
    obtain ⟨n, hn, rfl⟩ := Option.map_eq_some_iff.1 ht
    cases target with
    | family name' labels' =>
      obtain ⟨n', hn', heq⟩ := Option.map_eq_some_iff.1 htarget
      obtain rfl := Cell.arc.inj heq
      obtain ⟨rfl, rfl⟩ := h.apart name labels name' labels' n' hn hn'
      rfl
    | keepaliveDuration | auditDropped | auditFailed => cases htarget
  | keepaliveDuration | auditDropped | auditFailed =>
    cases ht
    cases target with
    | family =>
      obtain ⟨n, -, heq⟩ := Option.map_eq_some_iff.1 htarget
      cases heq
    | keepaliveDuration | auditDropped | auditFailed => first | rfl | cases htarget

@[simp] theorem cellOf_fetchAdd : (m.fetchAdd cell add).cellOf target = m.cellOf target := rfl

theorem WellKept.fetchAdd (h : m.WellKept) : (m.fetchAdd cell add).WellKept := ⟨h.nodup, h.allocated, h.apart⟩

/-- An addition is seen where it was meant, and nowhere else. -/
theorem exported_fetchAdd (h : m.WellKept) (ht : m.cellOf t = some cell) :
    (m.fetchAdd cell add).exported target slot =
      m.exported target slot + if t = target ∧ add.slot = slot then add.amount else 0 := by
  unfold exported
  rw [cellOf_fetchAdd]
  cases hcell : m.cellOf target with
  | none =>
    have hne : t ≠ target := by
      rintro rfl
      rw [ht] at hcell
      cases hcell
    simp [hne]
  | some cell' =>
    by_cases heq : t = target
    · subst heq
      obtain rfl := Option.some.inj (ht.symm.trans hcell)
      by_cases hslot : add.slot = slot
      · simp [Metrics.fetchAdd, hslot]
      · simp [Metrics.fetchAdd, hslot, Ne.symm hslot]
    · have hne : cell' ≠ cell := by
        rintro rfl
        exact heq (h.cellOf_inj ht hcell)
      simp [Metrics.fetchAdd, hne, heq]

/-- A look-up in a family that has got a new entry. -/
theorem lookup_push {name : FamilyName} {labels : List String} {n : ℕ}
    (hlookup : (m.inner name).lookup labels = none) (name' : FamilyName) (labels' : List String) :
    (Function.update m.inner name (m.inner name ++ [(labels, n)]) name').lookup labels' =
      if name' = name ∧ labels' = labels then some n else (m.inner name').lookup labels' := by
  by_cases hname : name' = name
  · subst hname
    rw [Function.update_self, Lookup.lookup_append]
    by_cases hlabels : labels' = labels
    · subst hlabels
      simp [hlookup]
    · rw [List.lookup_cons, beq_false_of_ne hlabels]
      simp [hlabels]
  · simp [hname]

/-- **What the write lock does**: the labels have a cell, the one they had or
    a new one at zero, and nothing else has changed. -/
theorem orInsert_spec (h : m.WellKept) (name : FamilyName) (labels : List String) :
    (m.orInsert name labels).1.WellKept ∧
    (m.orInsert name labels).1.cellOf (.family name labels) = some (m.orInsert name labels).2 ∧
    (∀ t cell, m.cellOf t = some cell → (m.orInsert name labels).1.cellOf t = some cell) ∧
    (∀ t slot, (m.orInsert name labels).1.exported t slot = m.exported t slot) := by
  unfold orInsert
  cases hlookup : (m.inner name).lookup labels with
  | some n => exact ⟨h, by simp [cellOf, hlookup], fun _ _ => id, fun _ _ => rfl⟩
  | none =>
    have hnew : labels ∉ (m.inner name).map (·.1) := Lookup.lookup_eq_none.1 hlookup
    have hinner := lookup_push (n := m.arcs) hlookup
    dsimp only
    have hkeep : ∀ t cell, m.cellOf t = some cell →
        cellOf { m with
          inner := Function.update m.inner name (m.inner name ++ [(labels, m.arcs)])
          cells := Function.update m.cells (.arc m.arcs) fun _ => 0
          arcs := m.arcs + 1 } t = some cell := by
      rintro (⟨name', labels'⟩ | _ | _ | _) cell ht
      · obtain ⟨n, hn, rfl⟩ := Option.map_eq_some_iff.1 ht
        simp only [cellOf, hinner]
        rw [if_neg, hn]
        · rfl
        · rintro ⟨rfl, rfl⟩
          rw [hlookup] at hn
          cases hn
      all_goals exact ht
    refine ⟨⟨fun name' => ?_, fun name' labels' n hn => ?_, fun name₁ labels₁ name₂ labels₂ n h₁ h₂ => ?_⟩,
      ?_, hkeep, ?_⟩
    · dsimp only
      by_cases hname : name' = name
      · subst hname
        rw [Function.update_self, List.map_append, List.map_singleton, List.nodup_append_comm]
        exact List.nodup_cons.2 ⟨hnew, h.nodup name'⟩
      · rw [Function.update_of_ne hname]
        exact h.nodup name'
    · rw [hinner] at hn
      split_ifs at hn
      · exact (Option.some.inj hn) ▸ Nat.lt_succ_self _
      · exact Nat.lt_succ_of_lt (h.allocated name' labels' n hn)
    · rw [hinner] at h₁ h₂
      split_ifs at h₁ h₂ with hat₁ hat₂ hat₂
      · exact ⟨hat₁.1.trans hat₂.1.symm, hat₁.2.trans hat₂.2.symm⟩
      · obtain rfl := Option.some.inj h₁
        exact absurd (h.allocated _ _ _ h₂) (lt_irrefl _)
      · obtain rfl := Option.some.inj h₂
        exact absurd (h.allocated _ _ _ h₁) (lt_irrefl _)
      · exact h.apart _ _ _ _ _ h₁ h₂
    · simp only [cellOf, hinner]
      simp
    · rintro (⟨name', labels'⟩ | _ | _ | _) slot
      · simp only [exported, cellOf, hinner]
        by_cases hat : name' = name ∧ labels' = labels
        · obtain ⟨rfl, rfl⟩ := hat
          simp [hlookup]
        · rw [if_neg hat]
          cases hold : (m.inner name').lookup labels' with
          | none => rfl
          | some n =>
            -- a cell that is in use is not the new one
            have hne : n ≠ m.arcs := (h.allocated name' labels' n hold).ne
            simp [hne]
      all_goals simp [exported, cellOf]

/-- The keys after the write lock. -/
theorem keys_orInsert (name name' : FamilyName) (labels labels' : List String) :
    labels' ∈ ((m.orInsert name labels).1.inner name').map (·.1) ↔
      labels' ∈ (m.inner name').map (·.1) ∨ name' = name ∧ labels' = labels := by
  unfold orInsert
  cases hlookup : (m.inner name).lookup labels with
  | some n =>
    have hmem := List.mem_map_of_mem (f := (·.1)) (Lookup.mem_of_lookup hlookup)
    constructor
    · exact Or.inl
    · rintro (hmem' | ⟨rfl, rfl⟩)
      · exact hmem'
      · exact hmem
  | none =>
    by_cases hname : name' = name
    · subst hname
      simp
    · simp [hname]

end

end Metrics

/-! ## Every order of the steps -/

/-- A call adds where its target is. -/
def Recorder.At (m : Metrics) (r : Recorder) : Prop :=
  ∀ target cell adds, r.phase = .adding target cell adds → m.cellOf target = some cell

theorem startWrite_found {m : Metrics} {target : Target} {cell : Cell} (h : m.cellOf target = some cell)
    (adds : List Add) (writes : List (Target × List Add)) :
    startWrite m ((target, adds) :: writes) = ⟨writes, .adding target cell adds⟩ := by
  simp only [startWrite, h]

theorem startWrite_missed {m : Metrics} {name : FamilyName} {labels : List String}
    (h : m.cellOf (.family name labels) = none) (adds : List Add) (writes : List (Target × List Add)) :
    startWrite m ((.family name labels, adds) :: writes) = ⟨writes, .missed name labels adds⟩ := by
  simp only [startWrite, h]

/-- A look-up finds the cell or misses it, and owes what was owed. -/
theorem startWrite_spec (m : Metrics) (writes : List (Target × List Add)) :
    (startWrite m writes).At m ∧
      ∀ target slot, (startWrite m writes).owed target slot = due writes target slot := by
  cases writes with
  | nil => exact ⟨nofun, fun _ _ => by simp [startWrite, Recorder.owed, Phase.owed]⟩
  | cons write writes =>
    obtain ⟨t, adds⟩ := write
    cases hcell : m.cellOf t with
    | some cell =>
      rw [startWrite_found hcell]
      refine ⟨?_, fun _ _ => by simp [Recorder.owed, Phase.owed]⟩
      rintro _ _ _ ⟨⟩
      exact hcell
    | none =>
      cases t with
      | family name labels =>
        rw [startWrite_missed hcell]
        exact ⟨nofun, fun _ _ => by simp [Recorder.owed, Phase.owed]⟩
      | keepaliveDuration | auditDropped | auditFailed => cases hcell

/-- **One step of a call** moves a count from what is owed to what is exported. -/
theorem advance_spec {m : Metrics} {r : Recorder} (h : m.WellKept) (hat : r.At m) :
    (r.advance m).1.WellKept ∧ (r.advance m).2.At (r.advance m).1 ∧
    (∀ t cell, m.cellOf t = some cell → (r.advance m).1.cellOf t = some cell) ∧
    ∀ target slot, (r.advance m).1.exported target slot + (r.advance m).2.owed target slot =
      m.exported target slot + r.owed target slot := by
  obtain ⟨writes, phase⟩ := r
  have hstart : ∀ phase, (∀ target slot, phase.owed target slot = 0) →
      m.WellKept ∧ (startWrite m writes).At m ∧ (∀ t cell, m.cellOf t = some cell → m.cellOf t = some cell) ∧
      ∀ target slot, m.exported target slot + (startWrite m writes).owed target slot =
        m.exported target slot + (⟨writes, phase⟩ : Recorder).owed target slot := by
    intro phase hphase
    refine ⟨h, (startWrite_spec m writes).1, fun _ _ => id, fun target slot => ?_⟩
    rw [(startWrite_spec m writes).2, Recorder.owed, hphase, zero_add]
  cases phase with
  | idle => exact hstart .idle fun _ _ => rfl
  | missed name labels adds =>
    obtain ⟨hkept, hcell, hkeep, hexported⟩ := Metrics.orInsert_spec h name labels
    refine ⟨hkept, ?_, hkeep, fun target slot => ?_⟩
    · rintro _ _ _ ⟨⟩
      exact hcell
    · exact congrArg (· + _) (hexported target slot)
  | adding t cell adds =>
    have ht : m.cellOf t = some cell := hat t cell adds rfl
    cases adds with
    | nil => exact hstart (.adding t cell []) fun _ _ => by simp [Phase.owed]
    | cons add adds =>
      refine ⟨h.fetchAdd, ?_, fun _ _ => id, fun target slot => ?_⟩
      · rintro _ _ _ ⟨⟩
        exact ht
      · unfold Recorder.advance
        simp only [Metrics.exported_fetchAdd h ht, Recorder.owed, Phase.owed, due_cons, due_nil, total_cons]
        by_cases hslot : add.slot = slot
        · by_cases htarget : t = target
          · simp only [hslot, htarget, and_self, if_true]
            abel
          · simp [htarget]
        · simp [hslot]

/-- The keys of a family after a step: the labels that a call missed are there. -/
theorem keys_advance (m : Metrics) (r : Recorder) (name : FamilyName) (labels : List String) :
    labels ∈ ((r.advance m).1.inner name).map (·.1) ↔
      labels ∈ (m.inner name).map (·.1) ∨ ∃ adds, r.phase = .missed name labels adds := by
  obtain ⟨writes, phase⟩ := r
  cases phase with
  | idle => simp [Recorder.advance]
  | missed name' labels' adds =>
    have hkeys := Metrics.keys_orInsert (m := m) name' name labels' labels
    simp only [Recorder.advance, hkeys, Phase.missed.injEq, exists_and_left, exists_eq', and_true]
    exact or_congr_right (and_congr eq_comm eq_comm)
  | adding target cell adds =>
    cases adds with
    | nil => simp [Recorder.advance]
    | cons add adds => simp [Recorder.advance, Metrics.fetchAdd]

/-- What every order of the steps keeps. -/
structure Kept (actions : List Recorders.Action) (s : Recorders) : Prop where
  wellKept : s.metrics.WellKept
  at_ : ∀ r ∈ s.threads, r.At s.metrics
  books : ∀ target slot, s.metrics.exported target slot + (s.threads.map (·.owed target slot)).sum =
    given target slot actions

theorem sum_set (f : Recorder → UInt64) {threads : List Recorder} {i : ℕ} {r : Recorder}
    (h : threads[i]? = some r) (r' : Recorder) :
    ((threads.set i r').map f).sum + f r = (threads.map f).sum + f r' := by
  induction threads generalizing i with
  | nil => cases h
  | cons t threads ih =>
    cases i with
    | zero =>
      obtain rfl := Option.some.inj h
      simp only [List.set_cons_zero, List.map_cons, List.sum_cons]
      abel
    | succ i =>
      simp only [List.set_cons_succ, List.map_cons, List.sum_cons]
      rw [add_assoc, ih h, add_assoc]

theorem kept_step {actions : List Recorders.Action} {s : Recorders} (h : Kept actions s)
    (a : Recorders.Action) : Kept (actions ++ [a]) (s.step a) := by
  have hgiven : ∀ target slot, given target slot (actions ++ [a]) =
      given target slot actions + given target slot [a] := by
    intro target slot
    simp [given]
  cases a with
  | record r =>
    refine ⟨h.wellKept, fun t ht => ?_, fun target slot => ?_⟩
    · rcases List.mem_append.1 ht with ht | ht
      · exact h.at_ t ht
      · obtain rfl := List.mem_singleton.1 ht
        nofun
    · rw [hgiven, ← h.books]
      simp only [Recorders.step, given, List.map_append, List.sum_append, List.map_singleton,
        List.sum_singleton, Recorder.owed, Phase.owed, zero_add, add_assoc]
  | advance i =>
    have hzero : ∀ target slot, given target slot [.advance i] = 0 := fun _ _ => by simp [given]
    unfold Recorders.step
    dsimp only
    cases hi : s.threads[i]? with
    | none => exact ⟨h.wellKept, h.at_, fun target slot => by rw [hgiven, hzero, add_zero, ← h.books]⟩
    | some r =>
      obtain ⟨hkept, hat, hkeep, hbooks⟩ := advance_spec h.wellKept (h.at_ r (List.mem_of_getElem? hi))
      refine ⟨hkept, fun t ht target cell adds hphase => ?_, fun target slot => ?_⟩
      · rcases List.mem_or_eq_of_mem_set ht with ht | rfl
        · exact hkeep target cell (h.at_ t ht target cell adds hphase)
        · exact hat target cell adds hphase
      · have hset := sum_set (·.owed target slot) hi (r.advance s.metrics).2
        have hmove := hbooks target slot
        rw [hgiven, hzero, add_zero, ← h.books]
        dsimp only at hset ⊢
        -- both sides with what the call owed before
        refine add_right_cancel (b := r.owed target slot) ?_
        rw [add_assoc, hset, add_comm (s.threads.map _).sum, ← add_assoc, hmove]
        abel

theorem kept_run (actions : List Recorders.Action) : Kept actions (run Recorders.step .new actions) := by
  induction actions using List.reverseRecOn with
  | nil => exact ⟨Metrics.wellKept_new, by simp [Recorders.new], fun target slot => by cases target <;> rfl⟩
  | append_singleton actions a ih =>
    rw [run_concat]
    exact kept_step ih a

/-! ## Which series there are -/

/-- The labels are, or will be, looked up. -/
def Recorder.Wants (name : FamilyName) (labels : List String) (r : Recorder) : Prop :=
  ∃ adds, (.family name labels, adds) ∈ r.writes ∨ r.phase = .missed name labels adds

/-- Something was counted under the labels. -/
def Recorded (name : FamilyName) (labels : List String) (actions : List Recorders.Action) : Prop :=
  ∃ r, .record r ∈ actions ∧ ∃ adds, (.family name labels, adds) ∈ r.writes

/-- A family has the labels, or a call is about to give it them. -/
def Recorders.Sees (s : Recorders) (name : FamilyName) (labels : List String) : Prop :=
  labels ∈ (s.metrics.inner name).map (·.1) ∨ ∃ r ∈ s.threads, r.Wants name labels

theorem wants_startWrite (m : Metrics) (writes : List (Target × List Add)) (name : FamilyName)
    (labels : List String) :
    labels ∈ (m.inner name).map (·.1) ∨ (startWrite m writes).Wants name labels ↔
      labels ∈ (m.inner name).map (·.1) ∨ ∃ adds, (.family name labels, adds) ∈ writes := by
  cases writes with
  | nil => simp [startWrite, Recorder.Wants]
  | cons write writes =>
    obtain ⟨t, adds⟩ := write
    cases hcell : m.cellOf t with
    | some cell =>
      rw [startWrite_found hcell]
      simp only [Recorder.Wants, List.mem_cons, Prod.mk.injEq, reduceCtorEq, or_false]
      constructor
      · rintro (hkey | ⟨adds', h⟩)
        · exact Or.inl hkey
        · exact Or.inr ⟨adds', Or.inr h⟩
      · rintro (hkey | ⟨adds', ⟨rfl, -⟩ | h⟩)
        · exact Or.inl hkey
        · obtain ⟨n, hn, -⟩ := Option.map_eq_some_iff.1 hcell
          exact Or.inl (List.mem_map_of_mem (f := (·.1)) (Lookup.mem_of_lookup hn))
        · exact Or.inr ⟨adds', h⟩
    | none =>
      cases t with
      | family name' labels' =>
        rw [startWrite_missed hcell]
        simp only [Recorder.Wants, List.mem_cons, Prod.mk.injEq, Target.family.injEq, Phase.missed.injEq]
        refine or_congr_right ⟨?_, ?_⟩
        · rintro ⟨adds', h | ⟨rfl, rfl, rfl⟩⟩
          · exact ⟨adds', Or.inr h⟩
          · exact ⟨adds, Or.inl ⟨⟨rfl, rfl⟩, rfl⟩⟩
        · rintro ⟨adds', ⟨⟨rfl, rfl⟩, rfl⟩ | h⟩
          · exact ⟨adds', Or.inr ⟨rfl, rfl, rfl⟩⟩
          · exact ⟨adds', Or.inl h⟩
      | keepaliveDuration | auditDropped | auditFailed => cases hcell

/-- A step of a call gives a family no labels but those it wants. -/
theorem sees_advance (m : Metrics) (r : Recorder) (name : FamilyName) (labels : List String) :
    labels ∈ ((r.advance m).1.inner name).map (·.1) ∨ (r.advance m).2.Wants name labels ↔
      labels ∈ (m.inner name).map (·.1) ∨ r.Wants name labels := by
  rw [keys_advance]
  obtain ⟨writes, phase⟩ := r
  cases phase with
  | idle => simpa [Recorder.advance, Recorder.Wants] using wants_startWrite m writes name labels
  | missed name' labels' adds =>
    simp only [Recorder.advance, Recorder.Wants, reduceCtorEq, or_false]
    constructor
    · rintro ((hkey | ⟨adds', h⟩) | ⟨adds', h⟩)
      · exact Or.inl hkey
      · exact Or.inr ⟨adds', Or.inr h⟩
      · exact Or.inr ⟨adds', Or.inl h⟩
    · rintro (hkey | ⟨adds', h | h⟩)
      · exact Or.inl (Or.inl hkey)
      · exact Or.inr ⟨adds', h⟩
      · exact Or.inl (Or.inr ⟨adds', h⟩)
  | adding target cell adds =>
    cases adds with
    | nil => simpa [Recorder.advance, Recorder.Wants] using wants_startWrite m writes name labels
    | cons add adds => simp [Recorder.advance, Recorder.Wants]

theorem sees_step (s : Recorders) (a : Recorders.Action) (name : FamilyName) (labels : List String) :
    (s.step a).Sees name labels ↔ s.Sees name labels ∨ Recorded name labels [a] := by
  cases a with
  | record r =>
    simp only [Recorders.Sees, Recorders.step, Recorded, List.mem_append, List.mem_singleton, Recorder.Wants,
      Recorders.Action.record.injEq, or_and_right, exists_or, exists_eq_left, reduceCtorEq, or_false,
      exists_false, or_assoc]
  | advance i =>
    have hrecorded : ¬ Recorded name labels [.advance i] := by simp [Recorded]
    unfold Recorders.step
    dsimp only
    cases hi : s.threads[i]? with
    | none => simp [hrecorded]
    | some r =>
      have hadvance := sees_advance s.metrics r name labels
      have hr := List.mem_of_getElem? hi
      have hr' : (r.advance s.metrics).2 ∈ s.threads.set i (r.advance s.metrics).2 :=
        List.mem_set (List.getElem?_eq_some_iff.1 hi).1 _
      simp only [Recorders.Sees, hrecorded, or_false]
      constructor
      · rintro (hkey | ⟨t, ht, hwants⟩)
        · exact (hadvance.1 (Or.inl hkey)).imp_right fun h => ⟨r, hr, h⟩
        · rcases List.mem_or_eq_of_mem_set ht with ht | rfl
          · exact Or.inr ⟨t, ht, hwants⟩
          · exact (hadvance.1 (Or.inr hwants)).imp_right fun h => ⟨r, hr, h⟩
      · rintro (hkey | ⟨t, ht, hwants⟩)
        · exact (hadvance.2 (Or.inl hkey)).imp_right fun h => ⟨_, hr', h⟩
        · obtain ⟨j, hj⟩ := List.mem_iff_getElem?.1 ht
          by_cases hij : i = j
          · subst hij
            obtain rfl := Option.some.inj (hi.symm.trans hj)
            exact (hadvance.2 (Or.inr hwants)).imp_right fun h => ⟨_, hr', h⟩
          · exact Or.inr ⟨t, List.mem_of_getElem? ((List.getElem?_set_ne hij).trans hj), hwants⟩

/-- The call is over. -/
def Recorder.Done (r : Recorder) : Prop :=
  r.writes = [] ∧ (r.phase = .idle ∨ ∃ target cell, r.phase = .adding target cell [])

theorem Recorder.Done.owed {r : Recorder} (h : r.Done) (target : Target) (slot : Slot) :
    r.owed target slot = 0 := by
  obtain ⟨hwrites, hphase | ⟨t, cell, hphase⟩⟩ := h
  · simp [Recorder.owed, hwrites, hphase, Phase.owed]
  · simp [Recorder.owed, hwrites, hphase, Phase.owed]

theorem Recorder.Done.not_wants {r : Recorder} (h : r.Done) (name : FamilyName) (labels : List String) :
    ¬ r.Wants name labels := by
  obtain ⟨hwrites, hphase | ⟨t, cell, hphase⟩⟩ := h
  · simp [Recorder.Wants, hwrites, hphase]
  · simp [Recorder.Wants, hwrites, hphase]

theorem sees_run (actions : List Recorders.Action) (name : FamilyName) (labels : List String) :
    (run Recorders.step .new actions).Sees name labels ↔ Recorded name labels actions := by
  induction actions using List.reverseRecOn with
  | nil => simp [Recorders.Sees, Recorders.new, Metrics.new, Recorded]
  | append_singleton actions a ih =>
    rw [run_concat, sees_step, ih]
    simp only [Recorded, List.mem_append, or_and_right, exists_or]

/-- **Nothing is lost**, and nothing is made up: in every order of the steps,
    what is exported and what the calls have still to count is what they were
    given, each labels of a family being there once, and once they are over,
    for the labels that were counted alone. -/
theorem nothing_lost (actions : List Recorders.Action) :
    let s := run Recorders.step .new actions
    (∀ target slot, s.metrics.exported target slot + (s.threads.map (·.owed target slot)).sum =
      given target slot actions) ∧
    (∀ name, ((s.metrics.inner name).map (·.1)).Nodup) ∧
    ((∀ r ∈ s.threads, r.Done) →
      (∀ target slot, s.metrics.exported target slot = given target slot actions) ∧
      ∀ name labels, labels ∈ (s.metrics.inner name).map (·.1) ↔ Recorded name labels actions) := by
  intro s
  have hkept := kept_run actions
  refine ⟨hkept.books, hkept.wellKept.nodup, fun hdone => ⟨fun target slot => ?_, fun name labels => ?_⟩⟩
  · rw [← hkept.books, List.map_congr_left fun r hr => (hdone r hr).owed target slot]
    simp [s]
  · rw [← sees_run, Recorders.Sees, or_iff_left]
    rintro ⟨r, hr, hwants⟩
    exact (hdone r hr).not_wants name labels hwants

/-! ## Histograms -/

/-- The times that a call observes, and where. -/
def Recording.observations : Recording → List (Target × ℕ)
  | request lane route _ elapsed => [(.family .httpDuration [lane, route], elapsed)]
  | keepalive _ (some elapsed) => [(.keepaliveDuration, elapsed)]
  | _ => []

/-- The times observed at a target. -/
def observed (target : Target) (actions : List Recorders.Action) : List ℕ :=
  actions.flatMap fun
    | .record r => (r.observations.filter (·.1 = target)).map (·.2)
    | .advance _ => []

/-- The buckets of some bounds, the first of them having this number. -/
def bucketsFrom (elapsed k : ℕ) (bounds : List (ℕ × String)) : List Add :=
  ((bounds.zipIdx k).filter fun bound => elapsed ≤ bound.1.1).map fun bound => ⟨.bucket bound.2, 1⟩

theorem total_append (adds adds' : List Add) (slot : Slot) :
    total (adds ++ adds') slot = total adds slot + total adds' slot := by
  simp [total]

theorem bucketsFrom_cons (elapsed k : ℕ) (bound : ℕ × String) (bounds : List (ℕ × String)) :
    bucketsFrom elapsed k (bound :: bounds) =
      (if elapsed ≤ bound.1 then [⟨.bucket k, 1⟩] else []) ++ bucketsFrom elapsed (k + 1) bounds := by
  unfold bucketsFrom
  rw [List.zipIdx_cons]
  by_cases h : elapsed ≤ bound.1
  · simp [h]
  · simp [h]

theorem total_bucketsFrom_other {elapsed k : ℕ} {bounds : List (ℕ × String)} {slot : Slot}
    (h : ∀ i, k ≤ i → slot ≠ .bucket i) : total (bucketsFrom elapsed k bounds) slot = 0 := by
  induction bounds generalizing k with
  | nil => rfl
  | cons bound bounds ih =>
    rw [bucketsFrom_cons, total_append, ih fun i hi => h i (by omega), add_zero]
    split_ifs
    · rw [total_cons, if_neg (Ne.symm (h k le_rfl))]
      rfl
    · rfl

theorem total_bucketsFrom (elapsed k : ℕ) {i : ℕ} {bounds : List (ℕ × String)} {bound : ℕ × String}
    (h : bounds[i]? = some bound) :
    total (bucketsFrom elapsed k bounds) (.bucket (k + i)) = if elapsed ≤ bound.1 then 1 else 0 := by
  induction bounds generalizing k i with
  | nil => cases h
  | cons b bounds ih =>
    rw [bucketsFrom_cons, total_append]
    cases i with
    | zero =>
      obtain rfl := Option.some.inj h
      rw [total_bucketsFrom_other fun i hi => by simp; omega, add_zero]
      split_ifs <;> simp
    | succ i =>
      have hne : k ≠ k + 1 + i := by omega
      rw [show k + (i + 1) = k + 1 + i by omega, ih (k + 1) h]
      split_ifs <;> simp [hne]

section
variable {slot : Slot} (weight : ℕ → UInt64)

/-- What a call counts on an atomic that only histograms have. -/
theorem due_observations (hbump : ∀ count, total (bump count) slot = 0)
    (hobserve : ∀ elapsed, total (observe elapsed) slot = weight elapsed) (target : Target) (r : Recording) :
    due r.writes target slot = (((r.observations.filter (·.1 = target)).map (·.2)).map weight).sum := by
  have hone : ∀ t elapsed, due [(t, observe elapsed)] target slot =
      ((([(t, elapsed)].filter (·.1 = target)).map (·.2)).map weight).sum := by
    intro t elapsed
    by_cases h : t = target
    · simp [h, hobserve]
    · simp [h]
  cases r with
  | request lane route status elapsed =>
    simp only [Recording.writes, due_cons, hbump, ite_self, zero_add, Recording.observations, ← hone]
  | keepalive outcome elapsed =>
    cases elapsed with
    | none => simp [Recording.writes, Recording.observations, hbump]
    | some elapsed =>
      simp only [Recording.writes, Option.map_some, Option.toList_some, due_cons, hbump, ite_self, zero_add,
        Recording.observations, ← hone]
  | _ => simp [Recording.writes, Recording.observations, hbump]

theorem given_observed (hbump : ∀ count, total (bump count) slot = 0)
    (hobserve : ∀ elapsed, total (observe elapsed) slot = weight elapsed) (target : Target)
    (actions : List Recorders.Action) :
    given target slot actions = ((observed target actions).map weight).sum := by
  induction actions with
  | nil => rfl
  | cons a actions ih =>
    have hgiven : given target slot (a :: actions) = given target slot [a] + given target slot actions := by
      simp [given]
    rw [hgiven, ih]
    cases a with
    | record r => simp [given, observed, due_observations weight hbump hobserve]
    | advance i => simp [given, observed]

end

theorem sum_ofNat (l : List ℕ) : (l.map UInt64.ofNat).sum = .ofNat l.sum := by
  induction l with
  | nil => rfl
  | cons n l ih => rw [List.map_cons, List.sum_cons, List.sum_cons, ih, UInt64.ofNat_add]

theorem sum_indicator (p : ℕ → Bool) (l : List ℕ) :
    (l.map fun n => if p n then (1 : UInt64) else 0).sum = .ofNat (l.countP p) := by
  induction l with
  | nil => rfl
  | cons n l ih =>
    rw [List.map_cons, List.sum_cons, ih, List.countP_cons]
    cases p n with
    | true => rw [if_pos rfl, if_pos rfl, Nat.add_comm, UInt64.ofNat_add]; rfl
    | false => simp

theorem observe_eq (elapsed : ℕ) : observe elapsed =
    bucketsFrom elapsed 0 latencyBuckets ++ [⟨.sumMicros, .ofNat (elapsed / 1000)⟩, ⟨.count, 1⟩] := rfl

theorem latencyBuckets_sorted : latencyBuckets.Pairwise fun low high => low.1 ≤ high.1 := by decide

/-- **A histogram is cumulative** once the calls are over: each bucket counts
    the times that its bound is not below, the total all of them, and the sum
    is of whole microseconds; so that no bucket is above a later one, or above
    the total, while the times fit in the atomics. -/
theorem histogram_cumulative (actions : List Recorders.Action) (target : Target)
    (hdone : ∀ r ∈ (run Recorders.step .new actions).threads, r.Done) :
    let m := (run Recorders.step .new actions).metrics
    let times := observed target actions
    (∀ i bound, latencyBuckets[i]? = some bound →
      m.exported target (.bucket i) = .ofNat (times.countP (· ≤ bound.1))) ∧
    m.exported target .count = .ofNat times.length ∧
    m.exported target .sumMicros = .ofNat (times.map (· / 1000)).sum ∧
    (times.length < 2 ^ 64 → ∀ i j, i ≤ j → j < latencyBuckets.length →
      m.exported target (.bucket i) ≤ m.exported target (.bucket j) ∧
      m.exported target (.bucket j) ≤ m.exported target .count) := by
  intro m times
  have hexported : ∀ slot, m.exported target slot = given target slot actions := by
    intro slot
    rw [← (kept_run actions).books, List.map_congr_left fun r hr => (hdone r hr).owed target slot]
    simp [m]
  have hbucket : ∀ i bound, latencyBuckets[i]? = some bound →
      m.exported target (.bucket i) = .ofNat (times.countP (· ≤ bound.1)) := by
    intro i bound hbound
    rw [hexported, given_observed (fun elapsed => if decide (elapsed ≤ bound.1) then 1 else 0)
      (by simp [bump]) ?_, sum_indicator]
    intro elapsed
    have htotal := total_bucketsFrom elapsed 0 hbound
    rw [zero_add] at htotal
    rw [observe_eq, total_append, htotal]
    simp
  have hcount : m.exported target .count = .ofNat times.length := by
    rw [hexported, given_observed (fun _ => 1) (by simp [bump]) ?_]
    · have := sum_indicator (fun _ => true) times
      simpa using this
    · intro elapsed
      rw [observe_eq, total_append, total_bucketsFrom_other (by simp)]
      simp
  refine ⟨hbucket, hcount, ?_, fun hfit i j hij hj => ?_⟩
  · rw [hexported, given_observed (fun elapsed => .ofNat (elapsed / 1000)) (by simp [bump]) ?_,
      ← sum_ofNat, List.map_map]
    · rfl
    · intro elapsed
      rw [observe_eq, total_append, total_bucketsFrom_other (by simp)]
      simp
  · have hlow := hbucket i _ (List.getElem?_eq_getElem (hij.trans_lt hj))
    have hhigh := hbucket j _ (List.getElem?_eq_getElem hj)
    have hcounts : ∀ p : ℕ → Bool, times.countP p < UInt64.size :=
      fun p => List.countP_le_length.trans_lt hfit
    rw [hlow, hhigh, hcount]
    refine ⟨(UInt64.ofNat_le_iff_le (hcounts _) (hcounts _)).2 ?_,
      (UInt64.ofNat_le_iff_le (hcounts _) hfit).2 List.countP_le_length⟩
    refine List.countP_mono_left fun elapsed _ hle => ?_
    have hbound := (List.pairwise_iff_getElem.1 latencyBuckets_sorted) i j (hij.trans_lt hj) hj
    rcases hij.eq_or_lt with rfl | hlt
    · exact hle
    · exact decide_eq_true ((of_decide_eq_true hle).trans (hbound hlt))

/-- A renewal of 80 µs, in the second bucket and not in the first. -/
theorem histogram_cumulative_keepalive :
    let actions : List Recorders.Action := .record (.keepalive "ok" (some 80000)) :: List.replicate 22 (.advance 0)
    let m := (run Recorders.step .new actions).metrics
    m.exported .keepaliveDuration (.bucket 0) = 0 ∧ m.exported .keepaliveDuration (.bucket 1) = 1 ∧
      m.exported .keepaliveDuration (.bucket 1) ≤ m.exported .keepaliveDuration .count := by
  intro actions m
  have hthreads : (run Recorders.step .new actions).threads =
      [⟨[], .adding .keepaliveDuration .keepaliveDuration []⟩] := by
    decide +kernel
  have hdone : ∀ r ∈ (run Recorders.step .new actions).threads, r.Done := by
    intro r hr
    rw [hthreads, List.mem_singleton] at hr
    rw [hr]
    exact ⟨rfl, Or.inr ⟨_, _, rfl⟩⟩
  obtain ⟨hbucket, -, -, hmono⟩ := histogram_cumulative actions .keepaliveDuration hdone
  exact ⟨hbucket 0 _ rfl, hbucket 1 _ rfl, (hmono (by decide) 0 1 (by decide) (by decide)).2⟩

end SessionBroker.Telemetry
