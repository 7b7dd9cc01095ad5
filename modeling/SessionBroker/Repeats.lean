/-
  Which exchanges and issuances are left off the record (`should_record`,
  `audit.rs`).

  * `ExchangeSeen`: the coalescing map under its mutex.  A difference of
    readings that leaves `i64` panics under the lock where overflow is checked,
    and a poisoned mutex records everything;
  * `Answered`: each entry of the map is the reading of an earlier call that was
    answered true;
  * `skips_just_recorded`: a call is skipped for one less than the window away,
    in every run where no reading is the window or more behind what its entry
    says.  Behind an entry by more, everything is skipped.
-/
import SessionBroker.Clock
import SessionBroker.Lib.Keyed
import SessionBroker.Lib.Run

namespace SessionBroker

open Signed Runs Table

/-! ## The map -/

/-- `action::TOKEN_EXCHANGED`. -/
def tokenExchanged : String := "token.exchanged"

/-- `action::TOKEN_ISSUED`. -/
def tokenIssued : String := "token.issued"

/-- `EXCHANGE_MAP_MAX`. -/
def exchangeMapMax : ℕ := 8192

/-- `(action, who, for what)`. -/
structure SeenKey where
  action : String
  who : String
  what : String
deriving DecidableEq, Repr

structure SeenEntry where
  key : SeenKey
  last : ℤ
deriving DecidableEq, Repr

/-- `exchange_seen`. -/
structure ExchangeSeen where
  seen : Keyed SeenEntry.key
  poisoned : Bool

namespace ExchangeSeen

def new : ExchangeSeen := ⟨.empty, false⟩

/-- The end of `should_record`: the map makes room and takes the reading. -/
def note (s : ExchangeSeen) (key : SeenKey) (now : Timestamp) : ExchangeSeen :=
  let seen := if exchangeMapMax ≤ s.seen.rows.length then .empty else s.seen
  { s with seen := seen.insert ⟨key, now.secs⟩ }

/-- `should_record`; no answer where it panics. -/
def shouldRecord (build : Build) (coalesceSecs : ℕ) (s : ExchangeSeen) (key : SeenKey)
    (now : Timestamp) : Option Bool × ExchangeSeen :=
  let window := asI64 coalesceSecs
  if window ≤ 0 then (some true, s)
  else if s.poisoned then (some true, s)
  else
    match s.seen.find? key with
    | none => (some true, s.note key now)
    | some entry =>
      match sub build (2 ^ 63) now.secs entry.last with
      | none => (none, { s with poisoned := true })
      | some since => if since < window then (some false, s) else (some true, s.note key now)

/-- `should_record_exchange`. -/
def shouldRecordExchange (build : Build) (coalesceSecs : ℕ) (s : ExchangeSeen) (keyId sid : String)
    (now : Timestamp) : Option Bool × ExchangeSeen :=
  s.shouldRecord build coalesceSecs ⟨tokenExchanged, keyId, sid⟩ now

/-- `should_record_issuance`. -/
def shouldRecordIssuance (build : Build) (coalesceSecs : ℕ) (s : ExchangeSeen)
    (actorId audience : String) (now : Timestamp) : Option Bool × ExchangeSeen :=
  s.shouldRecord build coalesceSecs ⟨tokenIssued, actorId, audience⟩ now

end ExchangeSeen

/-! ## Runs of calls -/

inductive RecordCall where
  | exchange (keyId sid : String) (now : Timestamp)
  | issuance (actorId audience : String) (now : Timestamp)
deriving DecidableEq, Repr

namespace RecordCall

def key : RecordCall → SeenKey
  | exchange keyId sid _ => ⟨tokenExchanged, keyId, sid⟩
  | issuance actorId audience _ => ⟨tokenIssued, actorId, audience⟩

def now : RecordCall → Timestamp
  | exchange _ _ now | issuance _ _ now => now

def ask (build : Build) (coalesceSecs : ℕ) (s : ExchangeSeen) :
    RecordCall → Option Bool × ExchangeSeen
  | exchange keyId sid now => s.shouldRecordExchange build coalesceSecs keyId sid now
  | issuance actorId audience now => s.shouldRecordIssuance build coalesceSecs actorId audience now

theorem ask_eq (build : Build) (coalesceSecs : ℕ) (s : ExchangeSeen) (call : RecordCall) :
    call.ask build coalesceSecs s = s.shouldRecord build coalesceSecs call.key call.now := by
  cases call <;> rfl

end RecordCall

/-- The calls answered so far, each with its answer. -/
abbrev AnswerLog := List (RecordCall × Option Bool)

/-- The map, and what an observer keeps. -/
structure Repeats where
  sink : ExchangeSeen
  log : AnswerLog

namespace Repeats

def new : Repeats := ⟨.new, []⟩

def step (build : Build) (coalesceSecs : ℕ) (s : Repeats) (call : RecordCall) : Repeats :=
  let r := call.ask build coalesceSecs s.sink
  ⟨r.2, s.log ++ [(call, r.1)]⟩

end Repeats

variable {build : Build} {coalesceSecs : ℕ} {s : Repeats} {call : RecordCall}

/-- **Only repeats are skipped**: whatever is answered false repeats a call
    answered true, at a reading less than the window away. -/
def SkipsRepeats (coalesceSecs : ℕ) (log : AnswerLog) : Prop :=
  ∀ before asked after, log = before ++ asked :: after → asked.2 = some false →
    ∃ call, (call, some true) ∈ before ∧ call.key = asked.1.key ∧
      (asked.1.now.secs - call.now.secs).natAbs < coalesceSecs

/-- What the map holds of the call's key is not the window or more ahead of the
    reading, nor so far from it that the difference wraps to a small one. -/
def SeenClose (build : Build) (coalesceSecs : ℕ) (s : Repeats) (call : RecordCall) : Prop :=
  0 < asI64 coalesceSecs → s.sink.poisoned = false → ∀ entry ∈ s.sink.seen.rows,
    entry.key = call.key → Close build (2 ^ 63) (asI64 coalesceSecs) call.now.secs entry.last

instance : Decidable (SeenClose build coalesceSecs s call) :=
  inferInstanceAs (Decidable (_ → _ → _))

/-! ## One call -/

theorem asI64_le (secs : ℕ) : asI64 secs ≤ secs := by
  have hmod : (secs : ℤ) % (2 ^ 64 : ℕ) ≤ secs := by
    rw [← Int.natCast_emod]
    exact Int.ofNat_le.2 (Nat.mod_le _ _)
  unfold asI64 Int.bmod
  dsimp only
  split_ifs <;> omega

theorem asI64_le_half (secs : ℕ) : asI64 secs ≤ (2 ^ 63 : ℕ) :=
  (Int.bmod_lt (by decide)).le.trans (by decide)

section
variable {sink : ExchangeSeen} {key : SeenKey} {now : Timestamp}

/-- **Every way through `should_record`.** -/
theorem shouldRecord_cases (build : Build) (coalesceSecs : ℕ) (sink : ExchangeSeen) (key : SeenKey)
    (now : Timestamp) :
    let r := sink.shouldRecord build coalesceSecs key now
    r = (some true, sink) ∨ r = (none, { sink with poisoned := true }) ∨
    r = (some true, sink.note key now) ∨
    (r = (some false, sink) ∧ 0 < asI64 coalesceSecs ∧ sink.poisoned = false ∧
      ∃ entry since, sink.seen.find? key = some entry ∧
        sub build (2 ^ 63) now.secs entry.last = some since ∧ since < asI64 coalesceSecs) := by
  unfold ExchangeSeen.shouldRecord
  dsimp only
  split_ifs with hwindow hpoisoned
  · exact .inl rfl
  · exact .inl rfl
  · split
    · exact .inr (.inr (.inl rfl))
    · rename_i entry hfind
      split
      · exact .inr (.inl rfl)
      · rename_i since hsub
        split_ifs with hlt
        · exact .inr (.inr (.inr ⟨rfl, by omega, by simpa using hpoisoned, entry, since, hfind, hsub, hlt⟩))
        · exact .inr (.inr (.inl rfl))

theorem mem_note {entry : SeenEntry}
    (h : entry ∈ (sink.note key now).seen.rows) :
    entry ∈ sink.seen.rows ∨ entry = ⟨key, now.secs⟩ := by
  unfold ExchangeSeen.note at h
  dsimp only at h
  rcases Keyed.mem_insert.1 h with ⟨hold, -⟩ | hnew
  · left
    split_ifs at hold
    · exact absurd hold List.not_mem_nil
    · exact hold
  · exact .inr hnew

theorem length_note : (sink.note key now).seen.rows.length ≤ exchangeMapMax := by
  refine (Keyed.length_insert_le _ _).trans ?_
  split_ifs with hfull
  · exact Nat.le_of_ble_eq_true rfl
  · omega

end

namespace Repeats

/-- * Every entry is the reading of a call answered true;
    * the map is within its bound, and the readings were `i64`. -/
structure Answered (s : Repeats) : Prop where
  seen : ∀ entry ∈ s.sink.seen.rows, ∃ call, (call, some true) ∈ s.log ∧
    call.key = entry.key ∧ call.now.secs = entry.last
  bounded : s.sink.seen.rows.length ≤ exchangeMapMax
  readings : ∀ asked ∈ s.log, asked.1.now.IsI64

theorem answered_new : new.Answered where
  seen := fun _ h => absurd h List.not_mem_nil
  bounded := Nat.zero_le _
  readings := fun _ h => absurd h List.not_mem_nil

theorem Answered.step (h : s.Answered) (hi : call.now.IsI64) :
    (s.step build coalesceSecs call).Answered := by
  have hreadings : ∀ asked ∈ (s.step build coalesceSecs call).log, asked.1.now.IsI64 := by
    intro asked ha
    rcases List.mem_append.1 ha with ha | ha
    · exact h.readings asked ha
    · exact List.mem_singleton.1 ha ▸ hi
  -- an entry of before, and its call one step earlier in the log
  have hold : ∀ entry ∈ s.sink.seen.rows, ∃ call', (call', some true) ∈
      (s.step build coalesceSecs call).log ∧ call'.key = entry.key ∧ call'.now.secs = entry.last := by
    intro entry he
    obtain ⟨call', hlog, hkey, hlast⟩ := h.seen entry he
    exact ⟨call', List.mem_append_left _ hlog, hkey, hlast⟩
  have hsink : (s.step build coalesceSecs call).sink =
      (s.sink.shouldRecord build coalesceSecs call.key call.now).2 := by
    rw [← call.ask_eq]
    rfl
  have hlog : (s.step build coalesceSecs call).log =
      s.log ++ [(call, (s.sink.shouldRecord build coalesceSecs call.key call.now).1)] := by
    rw [← call.ask_eq]
    rfl
  rcases shouldRecord_cases build coalesceSecs s.sink call.key call.now with hr | hr | hr | ⟨hr, -⟩
  · exact ⟨by rwa [hsink, hr], by rw [hsink, hr]; exact h.bounded, hreadings⟩
  · exact ⟨by rwa [hsink, hr], by rw [hsink, hr]; exact h.bounded, hreadings⟩
  · refine ⟨?_, by rw [hsink, hr]; exact length_note, hreadings⟩
    rw [hsink, hr]
    intro entry he
    rcases mem_note he with he | rfl
    · exact hold entry he
    · exact ⟨call, by rw [hlog, hr]; simp, rfl, rfl⟩
  · exact ⟨by rwa [hsink, hr], by rw [hsink, hr]; exact h.bounded, hreadings⟩

/-- **A call that is skipped** rests on an entry that is close. -/
theorem Answered.skip (h : s.Answered) (hi : call.now.IsI64)
    (hclose : SeenClose build coalesceSecs s call)
    (hskip : (call.ask build coalesceSecs s.sink).1 = some false) :
    ∃ call', (call', some true) ∈ s.log ∧ call'.key = call.key ∧
      (call.now.secs - call'.now.secs).natAbs < coalesceSecs := by
  rw [call.ask_eq] at hskip
  rcases shouldRecord_cases build coalesceSecs s.sink call.key call.now with
    hr | hr | hr | ⟨-, hwindow, hsound, entry, since, hfind, hsub, hlt⟩
  · rw [hr] at hskip
    cases hskip
  · rw [hr] at hskip
    cases hskip
  · rw [hr] at hskip
    cases hskip
  · obtain ⟨hmem, hkey⟩ := Keyed.find?_some hfind
    obtain ⟨call', hlog, hkey', hlast⟩ := h.seen entry hmem
    have hfits := (h.readings _ hlog).fits
    rw [hlast] at hfits
    have hnear := (sub_lt_iff hi.fits hfits hwindow (asI64_le_half _)).2
      (hclose hwindow hsound entry hmem hkey) since hsub hlt
    have hle := asI64_le coalesceSecs
    refine ⟨call', hlog, hkey'.trans hkey, ?_⟩
    rw [hlast]
    omega

/-- **What is skipped was just recorded**, in every run of calls none of which
    is the window or more behind its entry.  The map stays within its bound in
    any run. -/
theorem skips_just_recorded (build : Build) (coalesceSecs : ℕ) (calls : List RecordCall)
    (hi : ∀ call ∈ calls, call.now.IsI64) :
    (run (step build coalesceSecs) new calls).sink.seen.rows.length ≤ exchangeMapMax ∧
    (Along (step build coalesceSecs) (SeenClose build coalesceSecs) new calls →
      SkipsRepeats coalesceSecs (run (step build coalesceSecs) new calls).log) := by
  have key : (run (step build coalesceSecs) new calls).Answered ∧
      (Along (step build coalesceSecs) (SeenClose build coalesceSecs) new calls →
        SkipsRepeats coalesceSecs (run (step build coalesceSecs) new calls).log) := by
    induction calls using List.reverseRecOn with
    | nil => exact ⟨answered_new, fun _ before asked after he => by simp [new] at he⟩
    | append_singleton calls call ih =>
      obtain ⟨hanswered, hskips⟩ := ih fun c hc => hi c (List.mem_append_left _ hc)
      have hcall := hi call (by simp)
      rw [run_concat]
      refine ⟨hanswered.step hcall, fun halong => ?_⟩
      obtain ⟨hbefore, hnow, -⟩ := along_append.1 halong
      refine splits_concat.2 ⟨hskips hbefore, fun hskip => ?_⟩
      exact hanswered.skip hcall hnow hskip
  exact ⟨key.1.bounded, key.2⟩

/-- A clock set back by a thousand seconds: the second exchange goes unrecorded. -/
theorem skips_behind :
    let calls : List RecordCall :=
      [.exchange "envoy-edge" "sid_1" ⟨1000⟩, .exchange "envoy-edge" "sid_1" ⟨0⟩]
    let s := run (step .wrapping 300) new calls
    s.log.map (·.2) = [some true, some false] ∧ ¬ SkipsRepeats 300 s.log := by
  refine ⟨by decide, fun h => ?_⟩
  obtain ⟨call, hmem, -, hnear⟩ := h [(.exchange "envoy-edge" "sid_1" ⟨1000⟩, some true)]
    (.exchange "envoy-edge" "sid_1" ⟨0⟩, some false) [] (by decide) rfl
  obtain rfl : call = .exchange "envoy-edge" "sid_1" ⟨1000⟩ := by simpa using hmem
  exact absurd hnear (by decide)

/-- A repeat after 299 seconds, and one 60 seconds before it. -/
theorem skips_just_recorded_repeat :
    SkipsRepeats 300 (run (step .wrapping 300) new
      [.exchange "bk_1" "sid_1" ⟨1000⟩, .exchange "bk_1" "sid_1" ⟨1299⟩,
        .exchange "bk_1" "sid_1" ⟨940⟩]).log :=
  (skips_just_recorded .wrapping 300 _ (by decide)).2 (by decide)

end Repeats

end SessionBroker
