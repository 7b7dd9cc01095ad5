/-
  What refused checks cost (`check_at` in `ratelimit.rs`).

  * a refused check moves the reference instant of its bucket and rounds the
    refill down, so a wait is counted in parts.  `Quota.Adds` says that two
    parts bring what the whole brings;
  * `Lossless`: that is so along all refused checks;
  * `Lags`: the bucket of a caller who did not make some of the refused checks
    has the same tokens to come;
  * `refused_checks_free` puts it together.
-/
import SessionBroker.Budget

namespace SessionBroker

/-- What comes back from `start` to `now` is the same in one part and in two, or
    enough to fill a bucket either way. -/
def Quota.Adds (q : Quota) (start last now : ℕ) : Prop :=
  q.refill (now - start) = q.refill (last - start) + q.refill (now - last) ∨
    q.capacityTokens ≤ q.refill (now - last) ∧ q.capacityTokens ≤ q.refill (now - start)

instance (q : Quota) (start last now : ℕ) : Decidable (q.Adds start last now) :=
  inferInstanceAs (Decidable (_ ∨ _))

/-- A check, and its answer. -/
abbrev Answered := (String × ℕ) × Option Decision

/-- No refused check loses anything.  The checks since `starts` were refused, the
    last one of them at `last`. -/
def Quota.Lossless (q : Quota) : List ℕ → ℕ → List Answered → Prop
  | _, _, [] => True
  | starts, last, (call, decision) :: rest =>
    (∀ start ∈ starts, q.Adds start last call.2) ∧
      match decision with
      | some (.deny _) => q.Lossless (last :: starts) call.2 rest
      | _ => q.Lossless [] call.2 rest

instance Quota.decidableLossless (q : Quota) :
    ∀ (starts : List ℕ) (last : ℕ) (answers : List Answered), Decidable (q.Lossless starts last answers)
  | _, _, [] => inferInstanceAs (Decidable True)
  | starts, last, (call, some (.deny _)) :: rest =>
    @instDecidableAnd _ _ _ (q.decidableLossless (last :: starts) call.2 rest)
  | _, _, (call, some .allow) :: rest | _, _, (call, none) :: rest =>
    @instDecidableAnd _ _ _ (q.decidableLossless [] call.2 rest)

/-- Some refused checks are left out. -/
inductive WithoutRefused : List Answered → List Answered → Prop
  | nil : WithoutRefused [] []
  | keep (e : Answered) {full kept : List Answered} (rest : WithoutRefused full kept) :
      WithoutRefused (e :: full) (e :: kept)
  | drop (call : String × ℕ) (retryAfterNanos : ℕ) {full kept : List Answered}
      (rest : WithoutRefused full kept) :
      WithoutRefused ((call, some (.deny retryAfterNanos)) :: full) kept

/-- Where nothing is refused nothing is left out. -/
theorem WithoutRefused.eq_of_none {full kept : List Answered} (h : WithoutRefused full kept)
    (hnone : ∀ e ∈ full, ∀ retryAfterNanos, e.2 ≠ some (.deny retryAfterNanos)) : kept = full := by
  induction h with
  | nil => rfl
  | keep e rest ih => rw [ih fun e' he' => hnone e' (List.mem_cons_of_mem _ he')]
  | drop call retryAfterNanos rest ih => exact absurd rfl (hnone _ List.mem_cons_self _)

/-! ## One bucket -/

namespace Bucket

variable {q : Quota} {b b' : Bucket} {starts : List ℕ} {now : ℕ}

/-- A check reads the tokens only. -/
theorem spend_congr (h : b.available q now = b'.available q now) : b.spend q now = b'.spend q now := by
  unfold spend wait
  rw [h]

/-- The bucket `b'` has not been checked since one of `starts`, and `b` has got
    by refused checks what `b'` has still to get. -/
def Lags (q : Quota) (starts : List ℕ) (b b' : Bucket) : Prop :=
  b = b' ∨ b'.last ∈ starts ∧ b.tokens = b'.tokens + q.refill (b.last - b'.last)

theorem Lags.available_eq (h : Lags q starts b b') (hadds : ∀ start ∈ starts, q.Adds start b.last now) :
    b.available q now = b'.available q now := by
  rcases h with rfl | ⟨hstart, htokens⟩
  · rfl
  have hadd := hadds _ hstart
  unfold Quota.Adds at hadd
  unfold available level
  omega

/-- A refused check that only `b` makes. -/
theorem Lags.refused (h : Lags q starts b b') (hscale : scale ≤ q.capacityTokens)
    (hadds : ∀ start ∈ starts, q.Adds start b.last now) {retryAfterNanos : ℕ} {b₁ : Bucket}
    (hspend : b.spend q now = (.deny retryAfterNanos, b₁)) : Lags q (b.last :: starts) b₁ b' := by
  have heq := h.available_eq hadds
  obtain ⟨hdeny, -, rfl⟩ := spend_deny hspend
  have hlow : b'.available q now = b'.level q now := by
    unfold available at heq hdeny ⊢
    omega
  refine Or.inr ⟨?_, heq.trans hlow⟩
  rcases h with rfl | ⟨hstart, -⟩
  · exact List.mem_cons_self
  · exact List.mem_cons_of_mem _ hstart

end Bucket

/-! ## One key -/

namespace Limiter

variable {checked : Bool} {q : Quota} {l l' : Limiter} {key : String} {b b' : Bucket}

/-- **Two callers**, one of whom leaves out refused checks of the other. -/
theorem Sound.trace_without (h : l.Sound q) (h' : l'.Sound q) (hb : l.bucket key = some b)
    (hb' : l'.bucket key = some b') {starts : List ℕ} (hlags : Bucket.Lags q starts b b')
    {times : List ℕ} {kept : List Answered}
    (hlossless : q.Lossless starts b.last (l.trace checked (times.map (key, ·))))
    (hkept : WithoutRefused (l.trace checked (times.map (key, ·))) kept) :
    l'.trace checked (kept.map (·.1)) = kept := by
  induction times generalizing l l' b b' starts kept with
  | nil =>
    cases hkept
    rfl
  | cons now times ih =>
    obtain ⟨d, b₁, l₁, hspend, hcheck, h₁, hb₁, hlast⟩ := h.checkAt_tracked hb checked now
    rw [List.map_cons, trace, hcheck] at hkept hlossless
    obtain ⟨hadds, hrest⟩ := hlossless
    cases hkept with
    | keep e rest =>
      obtain ⟨d', b₂, l₂, hspend', hcheck', h₂, hb₂, -⟩ := h'.checkAt_tracked hb' checked now
      rw [← Bucket.spend_congr (hlags.available_eq hadds), hspend, Prod.mk.injEq] at hspend'
      obtain ⟨rfl, rfl⟩ := hspend'
      rw [List.map_cons, trace, hcheck']
      refine congrArg (List.cons _) ?_
      cases d with
      | allow => exact ih h₁ h₂ hb₁ hb₂ (Or.inl rfl) (by rwa [hlast]) rest
      | deny => exact ih h₁ h₂ hb₁ hb₂ (Or.inl rfl) (by rwa [hlast]) rest
    | drop call retryAfterNanos rest =>
      exact ih h₁ h' hb₁ hb' (hlags.refused h.usable.scale_le hadds hspend) (by rwa [hlast]) rest

/-! ## Any quota -/

theorem trace_poisoned (h : l.poisoned = true) (calls : List (String × ℕ)) :
    ∀ e ∈ l.trace checked calls, e.2 = some .allow := by
  induction calls with
  | nil => simp [trace]
  | cons call calls ih =>
    have hcheck : l.checkAt checked call.1 call.2 = (some .allow, l) := if_pos h
    rw [trace, hcheck, List.forall_mem_cons]
    exact ⟨rfl, ih⟩

/-- Where the window is zero as a `u64`, a bucket refuses nothing. -/
theorem trace_divided (hper : l.quota.perNanos64 = 0) (hb : l.bucket key = some b)
    (times : List ℕ) : ∀ e ∈ l.trace checked (times.map (key, ·)),
      ∀ retryAfterNanos, e.2 ≠ some (.deny retryAfterNanos) := by
  cases hp : l.poisoned with
  | true =>
    intro e he retryAfterNanos hdeny
    rw [trace_poisoned hp _ e he] at hdeny
    cases hdeny
  | false =>
    cases times with
    | nil => simp [trace]
    | cons now times =>
      have hnone : l.checkLocked checked key now = none :=
        checkLocked_none hb (Bucket.refilled_divided hper)
      have hcheck : l.checkAt checked key now = (none, { l with poisoned := true }) := by
        unfold checkAt
        rw [hp, hnone]
        rfl
      rw [List.map_cons, trace, hcheck, List.forall_mem_cons]
      refine ⟨fun _ h => (by cases h), fun e he retryAfterNanos hdeny => ?_⟩
      rw [trace_poisoned rfl _ e he] at hdeny
      cases hdeny

/-- **Refused checks are free** where none of them loses anything: whoever leaves
    some out gets the same answers to the others. -/
theorem refused_checks_free (checked : Bool) (burst : UInt32) (perSecs capacity : ℕ)
    (history : List (String × ℕ)) (key : String) (b : Bucket) (times : List ℕ)
    (hburst : 1 ≤ burst.toNat) (hper : 1 ≤ perSecs)
    (htracked : ((new (.new burst perSecs) capacity).after checked history).buckets.lookup key = some b)
    (hlossless : (Quota.new burst perSecs).Lossless [] b.last
      (((new (.new burst perSecs) capacity).after checked history).trace checked
        (times.map (key, ·)))) :
    ∀ kept, WithoutRefused (((new (.new burst perSecs) capacity).after checked history).trace
        checked (times.map (key, ·))) kept →
      ((new (.new burst perSecs) capacity).after checked history).trace checked
        (kept.map (·.1)) = kept := by
  intro kept hkept
  by_cases hzero : (Quota.new burst perSecs).perNanos64 = 0
  · have hquota : ((new (.new burst perSecs) capacity).after checked history).quota.perNanos64 = 0 := by
      rw [after_quota]
      exact hzero
    rw [hkept.eq_of_none (trace_divided hquota htracked times), map_fst_trace]
  · have hq := Quota.new_usable hburst hper hzero
    obtain ⟨hsound, -⟩ := (new_sound hq capacity).after checked history
    exact hsound.trace_without hsound htracked htracked (Or.inl rfl) hlossless hkept

/-- Half a token at a time is nothing lost. -/
theorem refused_checks_free_halves :
    ((new (.new 1 1) 16).after true [("k", 0)]).trace true [("k", 1000000000)] =
      [(("k", 1000000000), some .allow)] :=
  refused_checks_free true 1 1 16 [("k", 0)] "k" ⟨0, 0⟩ [500000000, 1000000000] (by decide)
    (by decide) (by decide +kernel) (by decide +kernel) [(("k", 1000000000), some .allow)] (by
      rw [show ((new (.new 1 1) 16).after true [("k", 0)]).trace true
        ([500000000, 1000000000].map ("k", ·)) = [(("k", 500000000), some (.deny 500000000)),
          (("k", 1000000000), some .allow)] by decide +kernel]
      exact .drop _ _ (.keep _ .nil))

/-- A retry one nanosecond early puts off the token that was due. -/
theorem refused_check_costs :
    ((new (.new 1 1) 16).after true [("k", 0)]).trace true [("k", 999999999), ("k", 1000000000)] =
      [(("k", 999999999), some (.deny 1000)), (("k", 1000000000), some (.deny 1000))] ∧
    ((new (.new 1 1) 16).after true [("k", 0)]).trace true [("k", 1000000000)] =
      [(("k", 1000000000), some .allow)] := by
  decide +kernel

end Limiter

end SessionBroker
