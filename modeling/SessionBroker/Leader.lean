/-
  Leader election of the tabs (`react-sdk/src/leader.ts`) over one exclusive
  Web Lock.

  * The code of a tab is cut where it calls a listener: the calls under way are
    on a stack, and anything may happen during one, a `release()` included;
  * the lock is granted to any request that waits, and is free again once the
    promise of the holder's callback has settled; an abort cancels a request
    that waits and no other.  Where there are Web Locks there is
    `AbortController`;
  * `Lead`: what holds of a tab in every reachable state;
  * `one_leader`: at most one tab leads, and no tab keeps the lock for nothing.
-/
import SessionBroker.Lib.Run
import Mathlib.Logic.Function.Basic
import Mathlib.Data.List.Nodup

namespace SessionBroker

open Runs

/-! ## Tabs -/

/-- A lock request: queued, granted to a callback that has yet to run, held
    until the promise of the callback settles, or over. -/
inductive LockRequest where
  | waiting
  | granted
  | held (resolved : Bool)
  | done
deriving DecidableEq, Repr

/-- A loop over the listeners under way: what they are told, and who was. -/
structure Notifying where
  value : Bool
  told : List ℕ
deriving DecidableEq, Repr

/-- One `electLeader`. A listener is the number of its subscription: a function
    that is subscribed again counts as another. -/
structure Election where
  leading : Bool
  released : Bool
  /-- `releaseHeldLock` is set. -/
  holding : Bool
  aborted : Bool
  request : LockRequest
  listeners : List ℕ
  subscribed : ℕ
  calls : List Notifying
  /-- Who was told what, in order. -/
  heard : List (ℕ × Bool)
deriving DecidableEq, Repr

namespace Election

/-- `electLeader`, up to the lock request. -/
def start : Election := ⟨false, false, false, false, .waiting, [], 0, [], []⟩

/-- `promote`, up to its loop. -/
def promote (e : Election) : Election :=
  if e.released || e.leading then e
  else { e with leading := true, calls := ⟨true, []⟩ :: e.calls }

/-- The callback of the request: what it returns is resolved at once if the
    election was released meanwhile. -/
def callback (e : Election) : Election :=
  if e.released then { e with request := .held true }
  else promote { e with request := .held false, holding := true }

/-- `release` after its loop. -/
def finish (e : Election) : Election :=
  { e with
    released := true
    request := if e.holding then .held true else e.request
    holding := false
    aborted := true }

/-- `release`, up to its loop where it has one. -/
def release (e : Election) : Election :=
  if e.leading then { e with leading := false, calls := ⟨false, []⟩ :: e.calls } else e.finish

/-- The listener a loop calls next. -/
def next (e : Election) (call : Notifying) : Option ℕ := e.listeners.find? (· ∉ call.told)

/-- The innermost loop calls its next listener, or ends. -/
def notify (e : Election) : Election :=
  match e.calls with
  | [] => e
  | call :: calls =>
    match e.next call with
    | some l => { e with
        calls := ⟨call.value, call.told ++ [l]⟩ :: calls
        heard := e.heard ++ [(l, call.value)] }
    | none => if call.value then { e with calls } else finish { e with calls }

/-- `onChange`. -/
def onChange (e : Election) : Election :=
  { e with listeners := e.listeners ++ [e.subscribed], subscribed := e.subscribed + 1 }

/-- What `onChange` returns. -/
def unsubscribe (e : Election) (l : ℕ) : Election := { e with listeners := e.listeners.erase l }

end Election

/-- What happens in a tab. -/
inductive TabOp where
  /-- The callback of the request runs. -/
  | callback
  /-- The abort of the signal reaches the lock. -/
  | abort
  | release
  | notify
  | onChange
  | unsubscribe (l : ℕ)
deriving DecidableEq, Repr

def Election.step (e : Election) : TabOp → Election
  | .callback => if e.request = .granted then e.callback else e
  | .abort => if e.aborted = true ∧ e.request = .waiting then { e with request := .done } else e
  | .release => e.release
  | .notify => e.notify
  | .onChange => e.onChange
  | .unsubscribe l => e.unsubscribe l

/-! ## The lock -/

structure Locks where
  holder : Option ℕ
  tabs : ℕ → Option Election

inductive LockOp where
  | elect (tab : ℕ)
  | grant (tab : ℕ)
  /-- The promise of the callback has settled. -/
  | settle (tab : ℕ)
  | own (tab : ℕ) (op : TabOp)
deriving DecidableEq, Repr

namespace Locks

def start : Locks := ⟨none, fun _ => none⟩

def set (s : Locks) (tab : ℕ) (e : Election) : Locks :=
  { s with tabs := Function.update s.tabs tab (some e) }

def grant (s : Locks) (tab : ℕ) (e : Election) : Locks :=
  { s.set tab { e with request := .granted } with holder := some tab }

def settle (s : Locks) (tab : ℕ) (e : Election) : Locks :=
  { s.set tab { e with request := .done } with holder := none }

def step (s : Locks) : LockOp → Locks
  | .elect tab => if s.tabs tab = none then s.set tab .start else s
  | .grant tab => (s.tabs tab).elim s fun e =>
    if s.holder = none ∧ e.request = .waiting then s.grant tab e else s
  | .settle tab => (s.tabs tab).elim s fun e =>
    if e.request = .held true then s.settle tab e else s
  | .own tab op => (s.tabs tab).elim s fun e => s.set tab (e.step op)

/-- `isLeader`. -/
def Leads (s : Locks) (tab : ℕ) : Prop := ∃ e ∈ s.tabs tab, e.leading = true

def Waits (s : Locks) (tab : ℕ) : Prop := ∃ e ∈ s.tabs tab, e.request = .waiting

end Locks

/-! ## One tab -/

namespace Election

/-- A callback of the tab's promises is still to run, or the abort of its
    signal. -/
def Pending (e : Election) : Prop :=
  e.request = .granted ∨ e.request = .held true ∨ (e.aborted = true ∧ e.request = .waiting)

/-- The request has the lock. -/
def Occupies (e : Election) : Prop := e.request = .granted ∨ ∃ resolved, e.request = .held resolved

/-- A `release()` has not returned yet: it is calling the listeners. -/
def Releasing (e : Election) : Prop := ∃ c ∈ e.calls, c.value = false

/-- `release()` was called. -/
def Given (e : Election) : Prop := e.released = true ∨ e.Releasing

/-- **What holds of a tab**: it leads only while it holds the lock, it holds it
    unresolved only to lead or in the loop of a `release()`, and no listener is
    told the same twice. -/
structure Lead (e : Election) : Prop where
  leads : e.leading = true → e.request = .held false
  held : e.request = .held false →
    e.holding = true ∧ (e.leading = true ∨ e.Releasing)
  holds : e.holding = true → e.request = .held false
  released : e.released = true → e.leading = false ∧ e.holding = false ∧ e.aborted = true
  silent : e.request = .waiting ∨ e.request = .granted → e.calls = [] ∧ e.heard = []
  calls : e.leading = true → ∀ c ∈ e.calls, c.value = true
  heardTrue : e.leading = true → ∀ p ∈ e.heard, p.2 = true
  once : (e.calls.map (·.value)).Nodup
  told : ∀ c ∈ e.calls, ∀ l, (l, c.value) ∈ e.heard → l ∈ c.told
  heard : e.heard.Nodup

variable {e : Election}

theorem Lead.start : Lead start where
  leads h := by cases h
  held h := by cases h
  holds h := by cases h
  released h := by cases h
  silent _ := ⟨rfl, rfl⟩
  calls h := by cases h
  heardTrue h := by cases h
  once := List.nodup_nil
  told c hc := by cases hc
  heard := List.nodup_nil

/-- A change of the request that is no grant of the lock to its callback. -/
theorem Lead.request (h : e.Lead) {r : LockRequest} (hbefore : e.request ≠ .held false)
    (hr : r ≠ .held false)
    (hsilent : r = .waiting ∨ r = .granted → e.request = .waiting ∨ e.request = .granted) :
    Lead { e with request := r } where
  leads hl := absurd (h.leads hl) hbefore
  held hh := absurd hh hr
  holds hh := absurd (h.holds hh) hbefore
  released := h.released
  silent hs := h.silent (hsilent hs)
  calls := h.calls
  heardTrue := h.heardTrue
  once := h.once
  told := h.told
  heard := h.heard

theorem Lead.callback (h : e.Lead) (hg : e.request = .granted) : Lead e.callback := by
  obtain ⟨hcalls, hheard⟩ := h.silent (Or.inr hg)
  have hidle : e.leading = false := by
    cases hl : e.leading with
    | false => rfl
    | true => exact absurd ((h.leads hl).symm.trans hg) (by simp)
  unfold Election.callback
  split_ifs with hr
  · exact h.request (by simp [hg]) (by simp) (by simp)
  · simp only [Bool.not_eq_true] at hr
    simp only [promote, hr, hidle, Bool.or_self, Bool.false_eq_true, if_false]
    exact {
      leads := fun _ => rfl
      held := fun _ => ⟨rfl, Or.inl rfl⟩
      holds := fun _ => rfl
      released := fun h => absurd h (by simp)
      silent := fun h => by simp at h
      calls := by simp [hcalls]
      heardTrue := by simp [hheard]
      once := by simp [hcalls]
      told := by simp [hcalls, hheard]
      heard := h.heard }

/-- The end of a release, its loop taken off the stack: whatever was held is
    resolved. -/
theorem Lead.finish (h : e.Lead) (hl : e.leading = false) {calls : List Notifying}
    (hsub : calls.Sublist e.calls) : Lead (finish { e with calls }) where
  leads hl' := absurd (hl.symm.trans hl') (by simp)
  held hh := by
    exfalso
    simp only [Election.finish] at hh
    split_ifs at hh with hold
    · simp at hh
    · exact hold (h.held hh).1
  holds hh := absurd hh (by simp [Election.finish])
  released _ := ⟨hl, rfl, rfl⟩
  silent hs := by
    simp only [Election.finish] at hs ⊢
    split_ifs at hs
    · simp at hs
    · obtain ⟨hcalls, hheard⟩ := h.silent hs
      exact ⟨List.sublist_nil.1 (hcalls ▸ hsub), hheard⟩
  calls hl' := absurd (hl.symm.trans hl') (by simp)
  heardTrue hl' := absurd (hl.symm.trans hl') (by simp)
  once := h.once.sublist (hsub.map _)
  told c hc := h.told c (hsub.mem hc)
  heard := h.heard

theorem Lead.release (h : e.Lead) : Lead e.release := by
  unfold Election.release
  split_ifs with hl
  · have hheld := h.leads hl
    exact {
      leads := fun h => absurd h (by simp)
      held := fun _ => ⟨(h.held hheld).1, Or.inr ⟨_, List.mem_cons_self .., rfl⟩⟩
      holds := h.holds
      released := fun hr => ⟨rfl, (h.released hr).2⟩
      silent := fun hs => by simp [hheld] at hs
      calls := fun h => absurd h (by simp)
      heardTrue := fun h => absurd h (by simp)
      once := by
        rw [List.map_cons, List.nodup_cons]
        refine ⟨fun hmem => ?_, h.once⟩
        obtain ⟨c, hc, hfalse⟩ := List.mem_map.1 hmem
        exact absurd ((h.calls hl c hc).symm.trans hfalse) (by simp)
      told := by
        intro c hc l hheard
        rcases List.mem_cons.1 hc with rfl | hc
        · exact absurd (h.heardTrue hl _ hheard) (by simp)
        · exact h.told c hc l hheard
      heard := h.heard }
  · exact h.finish (by simpa using hl) (List.Sublist.refl _)

theorem Lead.notify (h : e.Lead) : Lead e.notify := by
  unfold Election.notify
  cases hc : e.calls with
  | nil => exact h
  | cons call calls =>
    have honce := h.once
    rw [hc, List.map_cons, List.nodup_cons] at honce
    have hmem : call ∈ e.calls := by rw [hc]; exact List.mem_cons_self ..
    have hsub : calls.Sublist e.calls := by rw [hc]; exact List.sublist_cons_self ..
    have hbusy : ¬(e.request = .waiting ∨ e.request = .granted) := by
      intro hs
      rw [(h.silent hs).1] at hc
      cases hc
    dsimp only
    cases hn : e.next call with
    | some l =>
      -- a listener that is called next was not told yet
      have hnew : l ∉ call.told := by simpa using List.find?_some hn
      exact {
        leads := h.leads
        held := by
          intro hh
          obtain ⟨hold, hwhy⟩ := h.held hh
          refine ⟨hold, hwhy.imp_right ?_⟩
          rintro ⟨c, hcm, hfalse⟩
          rw [hc] at hcm
          rcases List.mem_cons.1 hcm with rfl | hcm
          · exact ⟨_, List.mem_cons_self .., hfalse⟩
          · exact ⟨c, List.mem_cons_of_mem _ hcm, hfalse⟩
        holds := h.holds
        released := h.released
        silent := fun hs => absurd hs hbusy
        calls := by
          intro hl c hcm
          rcases List.mem_cons.1 hcm with rfl | hcm
          · exact h.calls hl call hmem
          · exact h.calls hl c (hsub.mem hcm)
        heardTrue := by
          intro hl q hq
          rcases List.mem_append.1 hq with hq | hq
          · exact h.heardTrue hl q hq
          · rw [List.mem_singleton.1 hq]
            exact h.calls hl call hmem
        once := List.nodup_cons.2 honce
        told := by
          intro c hcm l' hl'
          rcases List.mem_cons.1 hcm with rfl | hcm
          · rcases List.mem_append.1 hl' with hl' | hl'
            · exact List.mem_append_left _ (h.told call hmem l' hl')
            · rw [List.mem_singleton, Prod.mk.injEq] at hl'
              rw [hl'.1]
              exact List.mem_append_right _ (List.mem_singleton_self _)
          · rcases List.mem_append.1 hl' with hl' | hl'
            · exact h.told c (hsub.mem hcm) l' hl'
            · -- the loops on the stack tell different things
              rw [List.mem_singleton, Prod.mk.injEq] at hl'
              exact absurd (List.mem_map.2 ⟨c, hcm, hl'.2⟩) honce.1
        heard := by
          refine List.nodup_append.2 ⟨h.heard, List.nodup_singleton _, ?_⟩
          rintro q hq q' hq' rfl
          rw [List.mem_singleton] at hq'
          subst hq'
          exact hnew (h.told call hmem l hq) }
    | none =>
      dsimp only
      split_ifs with hv
      · exact {
          leads := h.leads
          held := by
            intro hh
            obtain ⟨hold, hwhy⟩ := h.held hh
            refine ⟨hold, hwhy.imp_right ?_⟩
            rintro ⟨c, hcm, hfalse⟩
            rw [hc] at hcm
            rcases List.mem_cons.1 hcm with rfl | hcm
            · exact absurd (hv.symm.trans hfalse) (by simp)
            · exact ⟨c, hcm, hfalse⟩
          holds := h.holds
          released := h.released
          silent := fun hs => absurd hs hbusy
          calls := fun hl c hcm => h.calls hl c (hsub.mem hcm)
          heardTrue := h.heardTrue
          once := honce.2
          told := fun c hcm => h.told c (hsub.mem hcm)
          heard := h.heard }
      · refine h.finish ?_ hsub
        cases hl : e.leading with
        | false => rfl
        | true => exact absurd (h.calls hl call hmem) hv

theorem Lead.onChange (h : e.Lead) : Lead e.onChange := { h with }

theorem Lead.unsubscribe (h : e.Lead) (l : ℕ) : Lead (e.unsubscribe l) := { h with }

/-! ### What a step leaves -/

theorem finish_occupies (h : e.holding = true → e.request = .held false) {calls : List Notifying} :
    (finish { e with calls }).Occupies ↔ e.Occupies := by
  unfold Occupies Election.finish
  by_cases hold : e.holding = true
  · simp [hold, h hold]
  · simp [hold]

theorem Lead.release_occupies (h : e.Lead) : e.release.Occupies ↔ e.Occupies := by
  unfold Election.release
  split_ifs
  · exact Iff.rfl
  · exact finish_occupies h.holds

theorem Lead.notify_occupies (h : e.Lead) : e.notify.Occupies ↔ e.Occupies := by
  unfold Election.notify
  split
  · exact Iff.rfl
  · split
    · exact Iff.rfl
    · split_ifs
      · exact Iff.rfl
      · exact finish_occupies h.holds

theorem callback_occupies (hg : e.request = .granted) : e.callback.Occupies ↔ e.Occupies := by
  have hleft : e.Occupies := Or.inl hg
  refine iff_of_true ?_ hleft
  unfold Election.callback promote
  split_ifs
  · exact Or.inr ⟨true, rfl⟩
  · exact Or.inr ⟨false, rfl⟩
  · exact Or.inr ⟨false, rfl⟩

theorem release_given (e : Election) : e.release.Given := by
  unfold Election.release
  split_ifs
  · exact Or.inr ⟨_, List.mem_cons_self .., rfl⟩
  · exact Or.inl rfl

theorem Given.notify (h : e.Given) : e.notify.Given := by
  unfold Election.notify
  split
  · exact h
  · rename_i call calls hc
    split
    · refine h.imp_right ?_
      rintro ⟨c, hcm, hfalse⟩
      rw [hc] at hcm
      rcases List.mem_cons.1 hcm with rfl | hcm
      · exact ⟨_, List.mem_cons_self .., hfalse⟩
      · exact ⟨c, List.mem_cons_of_mem _ hcm, hfalse⟩
    · split_ifs with hv
      · refine h.imp_right ?_
        rintro ⟨c, hcm, hfalse⟩
        rw [hc] at hcm
        rcases List.mem_cons.1 hcm with rfl | hcm
        · exact absurd (hv.symm.trans hfalse) (by simp)
        · exact ⟨c, hcm, hfalse⟩
      · exact Or.inl rfl

theorem Given.callback (h : e.Given) (hl : e.Lead) (hg : e.request = .granted) :
    e.callback.Given := by
  rcases h with hr | ⟨c, hc, -⟩
  · rw [Election.callback, if_pos hr]
    exact Or.inl hr
  · rw [(hl.silent (Or.inr hg)).1] at hc
    cases hc

/-- After a `release()` a tab does not lead. -/
theorem Lead.not_leading (h : e.Lead) (hg : e.Given) : e.leading = false := by
  rcases hg with hr | ⟨c, hc, hfalse⟩
  · exact (h.released hr).1
  · cases hl : e.leading with
    | false => rfl
    | true => exact absurd ((h.calls hl c hc).symm.trans hfalse) (by simp)

/-- After a `release()` that has returned, with no callback to run, the request
    is over. -/
theorem Lead.over (h : e.Lead) (hg : e.Given) (hr : ¬e.Releasing) (hp : ¬e.Pending) :
    e.request = .done := by
  simp only [Pending, not_or, not_and] at hp
  obtain ⟨hgranted, hresolved, habort⟩ := hp
  obtain ⟨hl, hold, ha⟩ := h.released (hg.resolve_right hr)
  cases hreq : e.request with
  | waiting => exact absurd hreq (habort ha)
  | granted => exact absurd hreq hgranted
  | done => rfl
  | held resolved =>
    cases resolved with
    | true => exact absurd hreq hresolved
    | false => exact absurd ((h.held hreq).1.symm.trans hold) (by simp)

/-- Who has the lock and no callback to run leads, or is releasing. -/
theorem Lead.leads_of_occupies (h : e.Lead) (ho : e.Occupies) (hp : ¬e.Pending) :
    e.leading = true ∨ e.Releasing := by
  simp only [Pending, not_or, not_and] at hp
  obtain ⟨hgranted, hresolved, -⟩ := hp
  rcases ho with hg | ⟨resolved, hr⟩
  · exact absurd hg hgranted
  · cases resolved with
    | true => exact absurd hr hresolved
    | false => exact (h.held hr).2

theorem Lead.step (h : e.Lead) (op : TabOp) : (e.step op).Lead := by
  cases op with
  | callback =>
    rw [Election.step]
    split_ifs with hg
    · exact h.callback hg
    · exact h
  | abort =>
    rw [Election.step]
    split_ifs with ha
    · exact h.request (by simp [ha.2]) (by simp) (by simp)
    · exact h
  | release => exact h.release
  | notify => exact h.notify
  | onChange => exact h.onChange
  | unsubscribe l => exact h.unsubscribe l

/-- A step of the tab keeps the lock where it is. -/
theorem Lead.step_occupies (h : e.Lead) (op : TabOp) : (e.step op).Occupies ↔ e.Occupies := by
  cases op with
  | callback =>
    rw [Election.step]
    split_ifs with hg
    · exact callback_occupies hg
    · rfl
  | abort =>
    rw [Election.step]
    split_ifs with ha
    · simp [Occupies, ha.2]
    · rfl
  | release => exact h.release_occupies
  | notify => exact h.notify_occupies
  | onChange => exact Iff.rfl
  | unsubscribe l => exact Iff.rfl

theorem Given.step (h : e.Given) (hl : e.Lead) (op : TabOp) : (e.step op).Given := by
  cases op with
  | callback =>
    rw [Election.step]
    split_ifs with hg
    · exact h.callback hl hg
    · exact h
  | abort =>
    rw [Election.step]
    split_ifs
    · exact h
    · exact h
  | release => exact release_given e
  | notify => exact h.notify
  | onChange => exact h
  | unsubscribe l => exact h

/-- What a listener was told, in order. -/
def told (e : Election) (l : ℕ) : List Bool := (e.heard.filter (·.1 = l)).map (·.2)

/-- **A listener is told alternating values.** -/
theorem Lead.alternates (h : e.Lead) (l : ℕ) : (e.told l).IsChain (· ≠ ·) := by
  refine List.Pairwise.isChain (List.pairwise_map.2 ?_)
  refine List.Pairwise.imp_of_mem ?_ (h.heard.filter _)
  intro q q' hq hq' hne heq
  have h₁ : q.1 = l := by simpa using (List.mem_filter.1 hq).2
  have h₂ : q'.1 = l := by simpa using (List.mem_filter.1 hq').2
  exact hne (Prod.ext (h₁.trans h₂.symm) heq)

end Election

/-! ## All tabs -/

namespace Locks

/-- The holder is the one tab whose request has the lock. -/
structure Inv (s : Locks) : Prop where
  lead : ∀ t e, s.tabs t = some e → e.Lead
  holder : ∀ t, s.holder = some t ↔ ∃ e ∈ s.tabs t, e.Occupies

/-- `release()` was called in the tab. -/
def Given (s : Locks) (tab : ℕ) : Prop := ∃ e ∈ s.tabs tab, e.Given

/-- A promise callback of the tab is still to run. -/
def Pending (s : Locks) (tab : ℕ) : Prop := ∃ e ∈ s.tabs tab, e.Pending

/-- A `release()` of the tab has not returned yet. -/
def Releasing (s : Locks) (tab : ℕ) : Prop := ∃ e ∈ s.tabs tab, e.Releasing

variable {s : Locks} {t : ℕ} {e e' : Election}

@[simp] theorem set_holder (s : Locks) (t : ℕ) (e : Election) : (s.set t e).holder = s.holder := rfl

theorem set_tabs (s : Locks) (t : ℕ) (e : Election) (u : ℕ) :
    (s.set t e).tabs u = if u = t then some e else s.tabs u :=
  Function.update_apply ..

/-- A step of one tab that keeps the lock where it is. -/
theorem Inv.set (h : s.Inv) (ht : s.tabs t = some e) (he : e'.Lead)
    (ho : e'.Occupies ↔ e.Occupies) : (s.set t e').Inv where
  lead u f hf := by
    rw [set_tabs] at hf
    split_ifs at hf
    · cases hf
      exact he
    · exact h.lead u f hf
  holder u := by
    rw [set_holder, h.holder u, set_tabs]
    split_ifs with hu
    · subst hu
      simp [ht, ho]
    · rfl

theorem inv_start : start.Inv where
  lead t e h := by cases h
  holder t := by simp [start]

/-- The lock goes to a tab that waits. -/
theorem Inv.grant (h : s.Inv) (ht : s.tabs t = some e) (hfree : s.holder = none)
    (hw : e.request = .waiting) : (s.grant t e).Inv := by
  constructor
  · intro u f hf
    rw [show (s.grant t e).tabs u = _ from set_tabs ..] at hf
    split_ifs at hf
    · cases hf
      exact (h.lead t e ht).request (by simp [hw]) (by simp) fun _ => Or.inl hw
    · exact h.lead u f hf
  · intro u
    rw [show (s.grant t e).tabs u = _ from set_tabs .., show (s.grant t e).holder = some t from rfl]
    split_ifs with hu
    · subst hu
      simp [Election.Occupies]
    · rw [← h.holder u, hfree]
      simp [Ne.symm hu]

/-- The lock comes back. -/
theorem Inv.settle (h : s.Inv) (ht : s.tabs t = some e) (hr : e.request = .held true) :
    (s.settle t e).Inv := by
  have hholder : s.holder = some t := (h.holder t).2 ⟨e, ht, Or.inr ⟨true, hr⟩⟩
  constructor
  · intro u f hf
    rw [show (s.settle t e).tabs u = _ from set_tabs ..] at hf
    split_ifs at hf
    · cases hf
      exact (h.lead t e ht).request (by simp [hr]) (by simp) (by simp)
    · exact h.lead u f hf
  · intro u
    rw [show (s.settle t e).tabs u = _ from set_tabs .., show (s.settle t e).holder = none from rfl]
    split_ifs with hu
    · subst hu
      simp [Election.Occupies]
    · rw [← h.holder u, hholder]
      simp [Ne.symm hu]

/-- **One step** keeps the lock with one tab. -/
theorem Inv.step (h : s.Inv) (op : LockOp) : (s.step op).Inv := by
  cases op with
  | elect t =>
    rw [Locks.step]
    split_ifs with hnone
    · constructor
      · intro u f hf
        rw [set_tabs] at hf
        split_ifs at hf
        · cases hf
          exact .start
        · exact h.lead u f hf
      · intro u
        rw [set_holder, h.holder u, set_tabs]
        split_ifs with hu
        · subst hu
          simp [hnone, Election.Occupies, Election.start]
        · rfl
    · exact h
  | grant t =>
    rw [Locks.step]
    cases he : s.tabs t with
    | none => exact h
    | some e =>
      rw [Option.elim_some]
      split_ifs with hg
      · exact h.grant he hg.1 hg.2
      · exact h
  | settle t =>
    rw [Locks.step]
    cases he : s.tabs t with
    | none => exact h
    | some e =>
      rw [Option.elim_some]
      split_ifs with hr
      · exact h.settle he hr
      · exact h
  | own t op =>
    rw [Locks.step]
    cases he : s.tabs t with
    | none => exact h
    | some e => exact h.set he ((h.lead t e he).step op) ((h.lead t e he).step_occupies op)

/-- Once it was called, it was. -/
theorem Given.step (h : s.Given t) (hi : s.Inv) (op : LockOp) : (s.step op).Given t := by
  obtain ⟨e, he, hg⟩ := h
  have keep : ∀ u f, (∀ e, s.tabs u = some e → e.Given → f.Given) → (s.set u f).Given t := by
    intro u f hf
    rw [Given, set_tabs]
    split_ifs with hu
    · subst hu
      exact ⟨f, rfl, hf e he hg⟩
    · exact ⟨e, he, hg⟩
  cases op with
  | elect u =>
    rw [Locks.step]
    split_ifs with hnone
    · exact keep u _ fun e he => absurd (hnone.symm.trans he) (by simp)
    · exact ⟨e, he, hg⟩
  | grant u =>
    rw [Locks.step]
    cases hu : s.tabs u with
    | none => exact ⟨e, he, hg⟩
    | some f =>
      rw [Option.elim_some]
      split_ifs
      · refine keep u _ fun e he hg => ?_
        cases hu.symm.trans he
        exact hg
      · exact ⟨e, he, hg⟩
  | settle u =>
    rw [Locks.step]
    cases hu : s.tabs u with
    | none => exact ⟨e, he, hg⟩
    | some f =>
      rw [Option.elim_some]
      split_ifs
      · refine keep u _ fun e he hg => ?_
        cases hu.symm.trans he
        exact hg
      · exact ⟨e, he, hg⟩
  | own u op =>
    rw [Locks.step]
    cases hu : s.tabs u with
    | none => exact ⟨e, he, hg⟩
    | some f =>
      refine keep u _ fun e he hg => ?_
      cases hu.symm.trans he
      exact hg.step (hi.lead u f hu) op

/-! ## Runs -/

theorem inv_run (ops : List LockOp) : (run step start ops).Inv :=
  run_preserves (fun _ op h => h.step op) inv_start ops

theorem given_run {before after : List LockOp} (h : (run step start before).tabs t ≠ none) :
    (run step start (before ++ .own t .release :: after)).Given t := by
  induction after using List.reverseRecOn with
  | nil =>
    rw [run_concat, step]
    cases he : (run step start before).tabs t with
    | none => exact absurd he h
    | some e => exact ⟨e.release, by simp [set_tabs, Election.step], Election.release_given e⟩
  | append_singleton after op ih =>
    rw [← List.cons_append, ← List.append_assoc, run_concat]
    exact ih.step (inv_run _) op

/-- **At most one leader, and no stranded lock**, whatever the tabs do. -/
theorem one_leader (ops : List LockOp) :
    (∀ t, (run step start ops).Leads t → (run step start ops).holder = some t) ∧
    (∀ t u, (run step start ops).Leads t → (run step start ops).Leads u → t = u) ∧
    (∀ before after t, ops = before ++ .own t .release :: after →
      (run step start before).tabs t ≠ none → ¬(run step start ops).Leads t ∧
        (¬(run step start ops).Releasing t → ¬(run step start ops).Pending t →
          (run step start ops).holder ≠ some t ∧ ¬(run step start ops).Waits t)) ∧
    (∀ t e l, (run step start ops).tabs t = some e → (e.told l).IsChain (· ≠ ·)) ∧
    ((∀ t, ¬(run step start ops).Pending t ∧ ¬(run step start ops).Releasing t) →
      (∀ t, ¬(run step start ops).Leads t) → (run step start ops).holder = none ∧
        ∀ t, (run step start ops).Waits t → ((run step start ops).step (.grant t)).holder = some t) := by
  have hi := inv_run ops
  have hgiven : ∀ before after t, ops = before ++ .own t .release :: after →
      (run step start before).tabs t ≠ none → (run step start ops).Given t := by
    rintro before after t rfl ht
    exact given_run ht
  generalize run step start ops = s at hi hgiven
  have hholds : ∀ t, s.Leads t → s.holder = some t := by
    rintro t ⟨e, he, hl⟩
    exact (hi.holder t).2 ⟨e, he, Or.inr ⟨false, (hi.lead t e he).leads hl⟩⟩
  refine ⟨hholds, fun t u ht hu => ?_, fun before after t hops ht => ?_, fun t e l he =>
    (hi.lead t e he).alternates l, fun hquiet hnobody => ?_⟩
  · exact Option.some.inj ((hholds t ht).symm.trans (hholds u hu))
  · obtain ⟨e, he, hg⟩ := hgiven before after t hops ht
    constructor
    · rintro ⟨f, hf, hl⟩
      cases he.symm.trans hf
      exact absurd (((hi.lead t e he).not_leading hg).symm.trans hl) (by simp)
    · intro hr hp
      have hover := (hi.lead t e he).over hg (fun h => hr ⟨e, he, h⟩) fun h => hp ⟨e, he, h⟩
      constructor
      · intro hholder
        obtain ⟨f, hf, ho⟩ := (hi.holder t).1 hholder
        cases he.symm.trans hf
        simp [Election.Occupies, hover] at ho
      · rintro ⟨f, hf, hw⟩
        cases he.symm.trans hf
        exact absurd (hover.symm.trans hw) (by simp)
  · have hfree : s.holder = none := by
      cases hh : s.holder with
      | none => rfl
      | some t =>
        obtain ⟨e, he, ho⟩ := (hi.holder t).1 hh
        obtain ⟨hp, hr⟩ := hquiet t
        rcases (hi.lead t e he).leads_of_occupies ho fun h => hp ⟨e, he, h⟩ with hl | hrel
        · exact absurd ⟨e, he, hl⟩ (hnobody t)
        · exact absurd ⟨e, he, hrel⟩ hr
    refine ⟨hfree, ?_⟩
    rintro t ⟨e, he, hw⟩
    rw [step, he, Option.elim_some, if_pos ⟨hfree, hw⟩]
    rfl

/-- A release hands the lock to the next tab. -/
example : (run step start [.elect 0, .elect 1, .grant 0, .own 0 .callback, .own 0 .onChange,
    .own 0 .notify, .own 0 .release, .own 0 .notify, .own 0 .notify, .own 0 .notify, .settle 0,
    .grant 1]).holder = some 1 := by decide

end Locks

end SessionBroker
