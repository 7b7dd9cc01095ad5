/-
  The commands of one call, applied to the tables.

  * `stored`: the tables after the commands an `IndexEffects` implies;
  * `gensOf`: the generations stored for a session, and what the commands make
    of them;
  * `Whole`: a stored session whose generations end in the current one and are
    numbered without a gap in the order.
-/
import SessionBroker.Killed

namespace SessionBroker

namespace Tables

/-! ## Applying commands -/

theorem applyAll_append (t : Tables) (cmds cmds' : List SessionCommand) :
    t.applyAll (cmds ++ cmds') = (t.applyAll cmds).bind fun t' => t'.applyAll cmds' :=
  List.foldlM_append ..

theorem applyAll_cons (t : Tables) (c : SessionCommand) (cmds : List SessionCommand) :
    t.applyAll (c :: cmds) = (t.applyCommand c).bind fun t' => t'.applyAll cmds :=
  List.foldlM_cons ..

@[simp] theorem applyAll_nil (t : Tables) : t.applyAll [] = some t := rfl

/-- **The primary keys** hold after every command. -/
theorem Keyed.applyCommand {t t' : Tables} {c : SessionCommand} (h : t.Keyed)
    (ha : t.applyCommand c = some t') : t'.Keyed := by
  cases c with
  | insertSession row =>
    simp only [Tables.applyCommand, insertSession] at ha
    split_ifs at ha with hs
    obtain ⟨c, -, rfl⟩ := Option.map_eq_some_iff.1 ha
    refine ⟨?_, h.generation⟩
    rw [List.map_append, List.nodup_append]
    refine ⟨h.session, by simp, fun a ha b hb hab => hs ?_⟩
    obtain ⟨r, hr, rfl⟩ := List.mem_map.1 ha
    rw [List.map_singleton, List.mem_singleton] at hb
    exact List.any_eq_true.2 ⟨r, hr, decide_eq_true (hab.trans hb)⟩
  | updateSessionProgress sid currentGen idleExp =>
    cases ha
    refine ⟨?_, h.generation⟩
    rw [updateSessionProgress, List.map_map]
    refine (List.map_congr_left fun r _ => ?_) ▸ h.session
    dsimp only [Function.comp]
    split_ifs <;> rfl
  | tombstoneSession sid now =>
    cases ha
    refine ⟨?_, h.generation⟩
    rw [tombstoneSession, List.map_map]
    refine (List.map_congr_left fun r _ => ?_) ▸ h.session
    dsimp only [Function.comp]
    split_ifs <;> rfl
  | insertGeneration sid genNo hash createdAt activeUntil =>
    simp only [Tables.applyCommand, insertGeneration] at ha
    split_ifs at ha with hh hs
    cases ha
    refine ⟨h.session, ?_⟩
    rw [List.map_append, List.nodup_append]
    refine ⟨h.generation, by simp, fun a ha b hb hab => hh ?_⟩
    obtain ⟨g, hg, rfl⟩ := List.mem_map.1 ha
    rw [List.map_singleton, List.mem_singleton] at hb
    exact List.any_eq_true.2 ⟨g, hg, decide_eq_true (hab.trans hb)⟩
  | supersedeGeneration hash supersededAt =>
    cases ha
    refine ⟨h.session, ?_⟩
    rw [updateGenerationSuperseded, List.map_map]
    refine (List.map_congr_left fun g _ => ?_) ▸ h.generation
    dsimp only [Function.comp]
    split_ifs <;> rfl
  | deleteGeneration hash =>
    cases ha
    exact ⟨h.session, h.generation.sublist (List.filter_sublist.map _)⟩

theorem Keyed.applyAll {t t' : Tables} {cmds : List SessionCommand} (h : t.Keyed)
    (ha : t.applyAll cmds = some t') : t'.Keyed :=
  applyAll_invariant Keyed (fun _ _ _ => Keyed.applyCommand) h ha

/-- The superseding a mint sends, on a row. -/
def supersede (p : Option (TokenHash × Timestamp)) (g : GenerationRow) : GenerationRow :=
  match p with
  | none => g
  | some p => if g.tokenHash = p.1 then { g with supersededAt := some p.2 } else g

theorem supersede_none : supersede none = id := rfl

theorem supersede_some (p : TokenHash × Timestamp) : supersede (some p) =
    fun g => if g.tokenHash = p.1 then { g with supersededAt := some p.2 } else g := rfl

@[simp] theorem supersede_sid (p : Option (TokenHash × Timestamp)) (g : GenerationRow) :
    (supersede p g).sid = g.sid := by
  cases p with
  | none => rfl
  | some p => rw [supersede_some]; dsimp only; split_ifs <;> rfl

@[simp] theorem supersede_tokenHash (p : Option (TokenHash × Timestamp)) (g : GenerationRow) :
    (supersede p g).tokenHash = g.tokenHash := by
  cases p with
  | none => rfl
  | some p => rw [supersede_some]; dsimp only; split_ifs <;> rfl

/-- The row `insert_generation` makes. -/
def newRow (sid : Sid) (g : Generation) : GenerationRow :=
  ⟨g.tokenHash, sid, g.genNo, g.createdAt, g.activeUntil, none⟩

/-- The tables after the commands of `effects`. -/
def stored (t : Tables) (effects : IndexEffects) (sid : Sid) : Tables :=
  { t with generation := ((t.generation ++ effects.added.toList.map (newRow sid)).map
      (supersede effects.superseded)).filter fun g => g.tokenHash ∉ effects.purged }

@[simp] theorem newRow_sid (sid : Sid) (g : Generation) : (newRow sid g).sid = sid := rfl

theorem applyAll_deletes (t : Tables) (hashes : List TokenHash) :
    t.applyAll (hashes.map .deleteGeneration) =
      some { t with generation := t.generation.filter fun g => g.tokenHash ∉ hashes } := by
  induction hashes generalizing t with
  | nil => simp
  | cons h hashes ih =>
    rw [List.map_cons, applyAll_cons]
    simp only [applyCommand, Option.bind_some, ih, deleteGeneration, List.filter_filter]
    congr 3
    funext g
    by_cases hg : g.tokenHash = h <;> by_cases hm : g.tokenHash ∈ hashes <;> simp [hg, hm]

/-- **The commands of `effects`** go through if the added hash is new and the
    session has its row. -/
theorem applyAll_commands {t : Tables} {effects : IndexEffects} {sid : Sid} (hr : t.HasRow sid)
    (hn : ∀ g ∈ effects.added, g.tokenHash ∉ t.generation.map (·.tokenHash)) :
    t.applyAll (effects.commands sid) = some (t.stored effects sid) := by
  obtain ⟨added, superseded, purged⟩ := effects
  have hany : (t.session.any fun s => s.row.sid = sid) = true := by
    obtain ⟨r, hr, hs⟩ := hr
    exact List.any_eq_true.2 ⟨r, hr, decide_eq_true hs⟩
  have hins : ∀ g ∈ added, t.insertGeneration sid g.genNo g.tokenHash g.createdAt g.activeUntil =
      some { t with generation := t.generation ++ [newRow sid g] } := by
    intro g hg
    have hno : (t.generation.any fun g' => g'.tokenHash = g.tokenHash) = false := by
      rw [Bool.eq_false_iff]
      intro hx
      obtain ⟨g', hg', hh⟩ := List.any_eq_true.1 hx
      exact hn g hg (List.mem_map.2 ⟨g', hg', of_decide_eq_true hh⟩)
    simp only [insertGeneration, hno, hany, if_true, newRow]
    rfl
  cases added with
  | none =>
    cases superseded <;>
      simp [IndexEffects.commands, stored, applyAll_cons, applyAll_deletes, applyCommand,
        updateGenerationSuperseded, supersede_none, supersede_some]
  | some g =>
    have hins := hins g rfl
    cases superseded <;>
      simp [IndexEffects.commands, stored, applyAll_cons, applyAll_deletes, applyCommand, hins,
        updateGenerationSuperseded, supersede_none, supersede_some]

theorem mem_stored {t : Tables} {effects : IndexEffects} {sid : Sid} {g : GenerationRow}
    (h : g ∈ (t.stored effects sid).generation) :
    (∃ g₀ ∈ t.generation, g.sid = g₀.sid ∧ g.tokenHash = g₀.tokenHash) ∨
      ∃ g₀ ∈ effects.added, g.sid = sid ∧ g.tokenHash = g₀.tokenHash := by
  simp only [stored, List.mem_filter, List.mem_map, List.mem_append, Option.mem_toList] at h
  obtain ⟨⟨g₀, h | ⟨g₁, h, rfl⟩, rfl⟩, -⟩ := h
  · exact Or.inl ⟨g₀, h, supersede_sid .., supersede_tokenHash ..⟩
  · exact Or.inr ⟨g₁, h, supersede_sid .., supersede_tokenHash ..⟩

/-! ## The generations stored for a session -/

def gensOf (t : Tables) (sid : Sid) : List Generation := (t.rowsOf sid).map (·.toGeneration)

@[simp] theorem toGeneration_tokenHash (g : GenerationRow) :
    g.toGeneration.tokenHash = g.tokenHash := rfl

theorem map_hash_gensOf (t : Tables) (sid : Sid) :
    (t.gensOf sid).map (·.tokenHash) = (t.rowsOf sid).map (·.tokenHash) := by
  rw [gensOf, List.map_map]
  rfl

theorem Keyed.gensOf_nodup {t : Tables} (h : t.Keyed) (sid : Sid) :
    ((t.gensOf sid).map (·.tokenHash)).Nodup := by
  rw [map_hash_gensOf]
  exact h.generation.sublist (List.filter_sublist.map _)

/-- A stored hash belongs to one session. -/
theorem Keyed.sid_eq {t : Tables} (h : t.Keyed) {g : GenerationRow} (hg : g ∈ t.generation)
    {sid : Sid} (hs : g.tokenHash ∈ (t.gensOf sid).map (·.tokenHash)) : g.sid = sid := by
  rw [map_hash_gensOf] at hs
  obtain ⟨g', hg', hh⟩ := List.mem_map.1 hs
  have hg' := List.mem_filter.1 hg'
  rw [← List.inj_on_of_nodup_map h.generation hg'.1 hg hh]
  exact of_decide_eq_true hg'.2

end Tables

/-- The superseding a mint sends, on a generation. -/
def Generation.superseded (p : Option (TokenHash × Timestamp)) (g : Generation) : Generation :=
  match p with
  | none => g
  | some p => if g.tokenHash = p.1 then { g with supersededAt := some p.2 } else g

@[simp] theorem Generation.superseded_none : Generation.superseded none = id := rfl

@[simp] theorem Generation.superseded_tokenHash (p : Option (TokenHash × Timestamp))
    (g : Generation) : (g.superseded p).tokenHash = g.tokenHash := by
  unfold superseded
  split
  · rfl
  · split_ifs <;> rfl

/-- Superseding by hash hits the last generation only. -/
theorem map_superseded_last {gs : List Generation} {g : Generation}
    (hn : ((gs ++ [g]).map (·.tokenHash)).Nodup) (now : Timestamp) :
    (gs ++ [g]).map (Generation.superseded (some (g.tokenHash, now))) =
      gs ++ [{ g with supersededAt := some now }] := by
  rw [List.map_append] at hn ⊢
  congr 1
  · conv_rhs => rw [← List.map_id gs]
    refine List.map_congr_left fun h hh => ?_
    refine if_neg fun hx : h.tokenHash = g.tokenHash => ?_
    exact (List.nodup_append.1 hn).2.2 _ (List.mem_map_of_mem hh) _ (by simp) hx
  · simp [Generation.superseded]

theorem Tables.toGeneration_supersede (p : Option (TokenHash × Timestamp)) (g : GenerationRow) :
    (supersede p g).toGeneration = g.toGeneration.superseded p := by
  cases p with
  | none => rfl
  | some p =>
    show (if g.tokenHash = p.1 then _ else g).toGeneration =
      if g.tokenHash = p.1 then _ else g.toGeneration
    split_ifs <;> rfl

/-- What the commands of `effects` make of the generations stored for the session. -/
def IndexEffects.generations (effects : IndexEffects) (gens : List Generation) : List Generation :=
  ((gens ++ effects.added.toList).map (Generation.superseded effects.superseded)).filter fun g =>
    g.tokenHash ∉ effects.purged

namespace Tables

/-- Rows of one session, superseded and purged. -/
theorem map_supersede_purge (effects : IndexEffects) (sid : Sid) (rows : List GenerationRow) :
    (((rows.map (supersede effects.superseded)).filter fun g => g.tokenHash ∉ effects.purged).filter
        fun g => g.sid = sid).map (·.toGeneration) =
      (((rows.filter fun g => g.sid = sid).map (·.toGeneration)).map
        (Generation.superseded effects.superseded)).filter fun g => g.tokenHash ∉ effects.purged := by
  induction rows with
  | nil => rfl
  | cons g rows ih =>
    by_cases hp : g.tokenHash ∈ effects.purged <;> by_cases hs : g.sid = sid <;>
      simp only [List.map_cons, List.filter_cons, supersede_tokenHash, supersede_sid, hp, hs,
        toGeneration_supersede, Generation.superseded_tokenHash, toGeneration_tokenHash,
        not_true, not_false_iff, decide_true, decide_false, if_true, if_false,
        Bool.false_eq_true, ih]

theorem gensOf_stored {t : Tables} {effects : IndexEffects} {sid : Sid}
    (ha : ∀ g ∈ effects.added, g.supersededAt = none) :
    (t.stored effects sid).gensOf sid = effects.generations (t.gensOf sid) := by
  have hnew : ((effects.added.toList.map (newRow sid)).filter fun g => g.sid = sid).map
      (·.toGeneration) = effects.added.toList := by
    cases hg : effects.added with
    | none => rfl
    | some g =>
      have hs := ha g hg
      obtain ⟨genNo, hash, createdAt, activeUntil, supersededAt⟩ := g
      simp only at hs
      subst hs
      simp [newRow, GenerationRow.toGeneration]
  simp only [gensOf, rowsOf, stored, IndexEffects.generations]
  rw [map_supersede_purge, List.filter_append, List.map_append, hnew]

/-- Other sessions' rows are left alone. -/
theorem gensOf_stored_of_ne {t : Tables} {effects : IndexEffects} {sid sid' : Sid}
    (hne : sid' ≠ sid)
    (hsup : ∀ p ∈ effects.superseded, p.1 ∉ (t.gensOf sid').map (·.tokenHash))
    (hpur : ∀ hash ∈ effects.purged, hash ∉ (t.gensOf sid').map (·.tokenHash)) :
    (t.stored effects sid).gensOf sid' = t.gensOf sid' := by
  have hnew : (effects.added.toList.map (newRow sid)).filter (fun g => g.sid = sid') = [] := by
    rw [List.filter_eq_nil_iff]
    intro g hg
    obtain ⟨g₀, -, rfl⟩ := List.mem_map.1 hg
    simp [Ne.symm hne]
  have hid : (t.gensOf sid').map (Generation.superseded effects.superseded) = t.gensOf sid' := by
    conv_rhs => rw [← List.map_id (t.gensOf sid')]
    refine List.map_congr_left fun g hg => ?_
    unfold Generation.superseded
    split
    · rfl
    · rename_i p hp
      have hmem : g.tokenHash ∈ (t.gensOf sid').map (·.tokenHash) := List.mem_map_of_mem hg
      refine if_neg fun hx => hsup p hp ?_
      rwa [hx] at hmem
  have hkeep : (t.gensOf sid').filter (fun g => g.tokenHash ∉ effects.purged) = t.gensOf sid' := by
    rw [List.filter_eq_self]
    intro g hg
    exact decide_eq_true fun hx => hpur _ hx (List.mem_map_of_mem hg)
  show ((((t.generation ++ effects.added.toList.map (newRow sid)).map _).filter _).filter _).map _ = _
  rw [map_supersede_purge, List.filter_append, hnew, List.append_nil]
  show ((t.gensOf sid').map _).filter _ = _
  rw [hid, hkeep]

/-- What was applied in part went through so far. -/
theorem applyAll_prefix {t t' : Tables} {p cmds : List SessionCommand} (hp : p <+: cmds)
    (ha : t.applyAll cmds = some t') : ∃ t₁, t.applyAll p = some t₁ := by
  obtain ⟨q, rfl⟩ := hp
  rw [applyAll_append, Option.bind_eq_some_iff] at ha
  obtain ⟨t₁, h₁, -⟩ := ha
  exact ⟨t₁, h₁⟩

theorem mem_gensOf {t : Tables} {sid : Sid} {g : Generation} :
    g ∈ t.gensOf sid ↔ ∃ r ∈ t.generation, r.sid = sid ∧ r.toGeneration = g := by
  simp [gensOf, rowsOf, and_assoc]

/-- A stored generation that is neither superseded nor deleted stays. -/
theorem mem_gensOf_applyAll {sid : Sid} {g : Generation} {cmds : List SessionCommand}
    {t t' : Tables} (ha : t.applyAll cmds = some t') (hg : g ∈ t.gensOf sid)
    (hs : ∀ s, .supersedeGeneration g.tokenHash s ∉ cmds)
    (hd : .deleteGeneration g.tokenHash ∉ cmds) : g ∈ t'.gensOf sid := by
  induction cmds generalizing t with
  | nil => cases ha; exact hg
  | cons c cmds ih =>
    rw [applyAll_cons, Option.bind_eq_some_iff] at ha
    obtain ⟨t₁, h₁, h₂⟩ := ha
    refine ih h₂ ?_ (fun s hx => hs s (List.mem_cons_of_mem _ hx))
      fun hx => hd (List.mem_cons_of_mem _ hx)
    rw [mem_gensOf] at hg ⊢
    obtain ⟨r, hr, hrs, hrg⟩ := hg
    cases c with
    | insertSession row =>
      simp only [applyCommand, insertSession] at h₁
      split_ifs at h₁
      obtain ⟨c, -, rfl⟩ := Option.map_eq_some_iff.1 h₁
      exact ⟨r, hr, hrs, hrg⟩
    | updateSessionProgress | tombstoneSession => cases h₁; exact ⟨r, hr, hrs, hrg⟩
    | insertGeneration sid' genNo hash createdAt activeUntil =>
      simp only [applyCommand, insertGeneration] at h₁
      split_ifs at h₁
      cases h₁
      exact ⟨r, List.mem_append_left _ hr, hrs, hrg⟩
    | supersedeGeneration hash supersededAt =>
      cases h₁
      have hne : r.tokenHash ≠ hash := fun hx =>
        hs supersededAt (by rw [← hrg, toGeneration_tokenHash, hx]; exact List.mem_cons_self)
      exact ⟨r, List.mem_map.2 ⟨r, hr, if_neg hne⟩, hrs, hrg⟩
    | deleteGeneration hash =>
      cases h₁
      have hne : r.tokenHash ≠ hash := fun hx =>
        hd (by rw [← hrg, toGeneration_tokenHash, hx]; exact List.mem_cons_self)
      exact ⟨r, List.mem_filter.2 ⟨hr, decide_eq_true hne⟩, hrs, hrg⟩

/-! ## A login -/

/-- The tables after a login that made `e`. -/
def loggedIn (t : Tables) (e : SessionEntry) (now : Timestamp) (providerId : String) : Tables :=
  { t with
    session := t.session ++ [⟨⟨e.sid, e.custody, e.sub, e.currentGen, e.idleExp, e.absoluteExp,
      .alive, now, none⟩, none, providerId⟩]
    generation := t.generation ++ e.gens.map (newRow e.sid) }

section
variable {t : Tables} (e : SessionEntry) {g : Generation} (now : Timestamp) (providerId : String)

theorem applyAll_newCommands (hg : e.gens = [g]) (hnow : g.createdAt = now)
    (hs : ∀ r ∈ t.session, r.row.sid ≠ e.sid) (hh : ∀ r ∈ t.generation, r.tokenHash ≠ g.tokenHash)
    (hc : ∃ c ∈ t.custody, c.custodyId = e.custody) :
    ∃ providerId, t.applyAll (SessionMap.newCommands e now) =
      some (t.loggedIn e now providerId) := by
  obtain ⟨c, hc⟩ : ∃ c, t.custody.find? (fun c => c.custodyId = e.custody) = some c := by
    rw [← Option.isSome_iff_exists, List.find?_isSome]
    obtain ⟨c, hc, hx⟩ := hc
    exact ⟨c, hc, decide_eq_true hx⟩
  have hno : (t.session.any fun s => s.row.sid = e.sid) = false := by
    rw [List.any_eq_false]
    intro r hr
    simpa using hs r hr
  refine ⟨c.providerId, ?_⟩
  simpa [SessionMap.newCommands, hg, applyAll_cons, applyCommand, insertSession, insertGeneration,
    hno, hc, loggedIn, newRow, hnow] using hh

variable (t) in
theorem gensOf_loggedIn (hg : ∀ g ∈ e.gens, g.supersededAt = none) (sid : Sid) :
    (t.loggedIn e now providerId).gensOf sid =
      t.gensOf sid ++ if e.sid = sid then e.gens else [] := by
  simp only [gensOf, rowsOf, loggedIn, List.filter_append, List.map_append]
  congr 1
  split_ifs with hs
  · have hall : (e.gens.map (newRow e.sid)).filter (fun r => r.sid = sid) =
        e.gens.map (newRow e.sid) := by
      rw [List.filter_eq_self]
      intro r hr
      obtain ⟨g, -, rfl⟩ := List.mem_map.1 hr
      exact decide_eq_true hs
    rw [hall, List.map_map]
    conv_rhs => rw [← List.map_id e.gens]
    refine List.map_congr_left fun g hgm => ?_
    have := hg g hgm
    obtain ⟨genNo, hash, createdAt, activeUntil, supersededAt⟩ := g
    simp only at this
    rw [this]
    rfl
  · rw [List.map_eq_nil_iff, List.filter_eq_nil_iff]
    intro r hr
    obtain ⟨g, -, rfl⟩ := List.mem_map.1 hr
    simp [hs]

end

end Tables

end SessionBroker
