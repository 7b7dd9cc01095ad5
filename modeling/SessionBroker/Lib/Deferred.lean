/-
  An index from values to the keys that hold them, whose updates are made
  after the change of a key and in any order.

  * `Consistent`: what holds while no value was removed from the index before
    it was inserted; each `Change` and each update keeps it, and with no update
    owed the index is `Exact`;
  * `Orphan`: a value that was removed before it was inserted stays in the
    index for good, or comes into it for good.
-/
import Mathlib.Data.Multiset.UnionInter
import Mathlib.Data.Multiset.MapFold
import Mathlib.Logic.Function.Basic

namespace Deferred

variable {κ ν : Type*}

/-- What each key holds, the index, the updates of it that are owed, and the
    values that may still come into use. -/
@[ext]
structure State (κ ν : Type*) where
  held : κ → List ν
  index : ν → Option κ
  inserts : Multiset (ν × κ)
  removes : Multiset ν
  unused : Multiset ν

/-- The index maps what is held, each value to its key, and nothing else. -/
def Exact (held : κ → List ν) (index : ν → Option κ) : Prop :=
  ∀ v k, index v = some k ↔ v ∈ held k

structure Consistent (s : State κ ν) : Prop where
  nodup : ∀ k, (s.held k).Nodup
  held : ∀ k, ∀ v ∈ s.held k, s.index v = some k ∨ (v, k) ∈ s.inserts
  indexed : ∀ v k, s.index v = some k → v ∈ s.held k ∨ v ∈ s.removes
  owed : ∀ v k, (v, k) ∈ s.inserts → s.index v = none ∧ (v ∈ s.held k ∨ v ∈ s.removes)
  once : (s.inserts.map Prod.fst).Nodup
  removes : s.removes.Nodup
  gone : ∀ v ∈ s.removes, ∀ k, v ∉ s.held k
  unused : s.unused.Nodup
  fresh : ∀ v ∈ s.unused, s.index v = none ∧ v ∉ s.removes ∧ v ∉ s.inserts.map Prod.fst ∧
    ∀ k, v ∉ s.held k

/-- With no update owed the index is exact. -/
theorem Consistent.exact {s : State κ ν} (h : Consistent s) (hi : s.inserts = 0)
    (hr : s.removes = 0) : Exact s.held s.index := by
  intro v k
  constructor
  · intro hx
    have hor := h.indexed v k hx
    rwa [hr, or_iff_left (Multiset.notMem_zero v)] at hor
  · intro hv
    have hor := h.held k v hv
    rwa [hi, or_iff_left (Multiset.notMem_zero (v, k))] at hor

/-- An exact index with no update owed is consistent. -/
theorem consistent_of_exact {s : State κ ν} (h : Exact s.held s.index)
    (hn : ∀ k, (s.held k).Nodup) (hi : s.inserts = 0) (hr : s.removes = 0)
    (hu : s.unused.Nodup) (hf : ∀ v ∈ s.unused, s.index v = none) : Consistent s := by
  refine ⟨hn, fun k v hv => Or.inl ((h v k).2 hv), fun v k hx => Or.inl ((h v k).1 hx), ?_, ?_, ?_,
    ?_, hu, fun v hv => ⟨hf v hv, ?_, ?_, fun k hk => ?_⟩⟩
  · simp [hi]
  · simp [hi]
  · simp [hr]
  · simp [hr]
  · simp [hr]
  · simp [hi]
  · have hx := (h v k).2 hk
    rw [hf v hv] at hx
    cases hx

namespace Consistent

variable {s : State κ ν}

/-- A value has one key. -/
theorem disjoint (h : Consistent s) {k k' : κ} {v : ν} (hk : v ∈ s.held k) (hk' : v ∈ s.held k') :
    k = k' := by
  rcases h.held k v hk with hx | hx
  · rcases h.held k' v hk' with hy | hy
    · exact Option.some.inj (hx.symm.trans hy)
    · rw [(h.owed v k' hy).1] at hx
      cases hx
  · rcases h.held k' v hk' with hy | hy
    · rw [(h.owed v k hx).1] at hy
      cases hy
    · have hinj := Multiset.inj_on_of_nodup_map h.once (v, k) hx (v, k') hy rfl
      exact (Prod.mk.inj hinj).2

/-- Values that will not be used. -/
theorem discard (h : Consistent s) {unused : Multiset ν} (hu : unused ≤ s.unused) :
    Consistent { s with unused } :=
  ⟨h.nodup, h.held, h.indexed, h.owed, h.once, h.removes, h.gone, Multiset.nodup_of_le hu h.unused,
    fun v hv => h.fresh v (Multiset.mem_of_le hu hv)⟩

variable {k k' : κ} {v : ν} {vs gained lost : List ν}

theorem lost_of_mem (hp : (vs ++ lost).Perm (gained ++ s.held k)) (hv : v ∈ lost) :
    v ∈ gained ∨ v ∈ s.held k :=
  List.mem_append.1 (hp.mem_iff.1 (List.mem_append_right vs hv))

theorem map_fst_inserts (inserts : Multiset (ν × κ)) (k : κ) (gained : List ν) :
    (inserts + ↑(gained.map fun v => (v, k))).map Prod.fst = inserts.map Prod.fst + ↑gained := by
  have hmap : ((gained.map fun v => (v, k)).map Prod.fst) = gained := by
    rw [List.map_map]
    exact List.map_id gained
  rw [Multiset.map_add, Multiset.map_coe, hmap]

/-- Values that were fresh are gained, and none twice. -/
theorem nodup_change (h : Consistent s) (hp : (vs ++ lost).Perm (gained ++ s.held k))
    (hg : gained.Nodup) (hfresh : ∀ v ∈ gained, v ∈ s.unused) : (vs ++ lost).Nodup := by
  rw [hp.nodup_iff, List.nodup_append]
  refine ⟨hg, h.nodup k, fun v hv w hw hvw => ?_⟩
  exact (h.fresh v (hfresh v hv)).2.2.2 k (hvw ▸ hw)

section
variable [DecidableEq κ]

/-- What is held after the change of a key was gained or held before. -/
theorem gained_or_held (hp : (vs ++ lost).Perm (gained ++ s.held k))
    (hv : v ∈ Function.update s.held k vs k') : (k' = k ∧ v ∈ gained) ∨ v ∈ s.held k' := by
  by_cases hk : k' = k
  · subst hk
    rw [Function.update_self] at hv
    have hmem := hp.mem_iff.1 (List.mem_append_left lost hv)
    exact (List.mem_append.1 hmem).imp_left fun hg => ⟨rfl, hg⟩
  · rw [Function.update_of_ne hk] at hv
    exact Or.inr hv

/-- What was gained or held before is held or lost. -/
theorem held_or_lost (hp : (vs ++ lost).Perm (gained ++ s.held k))
    (hv : (k' = k ∧ v ∈ gained) ∨ v ∈ s.held k') : v ∈ Function.update s.held k vs k' ∨ v ∈ lost := by
  by_cases hk : k' = k
  · subst hk
    rw [Function.update_self]
    exact List.mem_append.1 (hp.mem_iff.2 (List.mem_append.2 (hv.imp_left And.right)))
  · rw [Function.update_of_ne hk]
    exact Or.inl (hv.resolve_left fun hg => hk hg.1)

/-- What a key held, it holds still or has lost. -/
theorem still_held_or_removed (hp : (vs ++ lost).Perm (gained ++ s.held k))
    (hv : v ∈ s.held k' ∨ v ∈ s.removes) :
    v ∈ Function.update s.held k vs k' ∨ v ∈ s.removes + ↑lost := by
  rcases hv with hv | hv
  · exact (held_or_lost hp (Or.inr hv)).imp_right fun hl => Multiset.mem_add.2 (Or.inr hl)
  · exact Or.inr (Multiset.mem_add.2 (Or.inl hv))

/-- **A key changes** what it holds: the values it gains are to be inserted, the
    ones it loses to be removed. -/
theorem change (h : Consistent s) {k : κ} {vs gained lost : List ν} {unused : Multiset ν}
    (hp : (vs ++ lost).Perm (gained ++ s.held k)) (hu : ↑gained + unused ≤ s.unused) :
    Consistent
      { held := Function.update s.held k vs
        index := s.index
        inserts := s.inserts + ↑(gained.map fun v => (v, k))
        removes := s.removes + ↑lost
        unused } := by
  have hgain : ∀ v ∈ gained, v ∈ s.unused := fun v hv =>
    Multiset.mem_of_le hu (Multiset.mem_add.2 (Or.inl (Multiset.mem_coe.2 hv)))
  have hnu : ((gained : Multiset ν) + unused).Nodup := Multiset.nodup_of_le hu h.unused
  obtain ⟨hng, hnu, hgu⟩ := Multiset.nodup_add.1 hnu
  have hnd := h.nodup_change hp (Multiset.coe_nodup.1 hng) hgain
  obtain ⟨hnvs, hnl, hvl⟩ := List.nodup_append.1 hnd
  constructor
  · intro k'
    show (Function.update s.held k vs k').Nodup
    by_cases hk : k' = k
    · rw [hk, Function.update_self]
      exact hnvs
    · rw [Function.update_of_ne hk]
      exact h.nodup k'
  · intro k' v hv
    rcases gained_or_held hp hv with ⟨rfl, hg⟩ | ho
    · exact Or.inr (Multiset.mem_add.2 (Or.inr (Multiset.mem_coe.2 (List.mem_map_of_mem hg))))
    · exact (h.held k' v ho).imp_right fun hx => Multiset.mem_add.2 (Or.inl hx)
  · exact fun v k' hx => still_held_or_removed hp (h.indexed v k' hx)
  · intro v k' hv
    rcases Multiset.mem_add.1 hv with hv | hv
    · exact ⟨(h.owed v k' hv).1, still_held_or_removed hp (h.owed v k' hv).2⟩
    · obtain ⟨w, hw, hwv⟩ := List.mem_map.1 (Multiset.mem_coe.1 hv)
      obtain ⟨rfl, rfl⟩ := Prod.mk.inj hwv
      refine ⟨(h.fresh w (hgain w hw)).1, ?_⟩
      exact (held_or_lost hp (Or.inl ⟨rfl, hw⟩)).imp_right fun hl => Multiset.mem_add.2 (Or.inr hl)
  · rw [map_fst_inserts, Multiset.nodup_add]
    refine ⟨h.once, hng, Multiset.disjoint_left.2 fun {v} hv hg => ?_⟩
    exact (h.fresh v (hgain v (Multiset.mem_coe.1 hg))).2.2.1 hv
  · show (s.removes + ↑lost).Nodup
    rw [Multiset.nodup_add]
    refine ⟨h.removes, Multiset.coe_nodup.2 hnl, Multiset.disjoint_left.2 fun {v} hv hl => ?_⟩
    rcases lost_of_mem hp (Multiset.mem_coe.1 hl) with hg | ho
    · exact (h.fresh v (hgain v hg)).2.1 hv
    · exact h.gone v hv k ho
  · intro v hv k' hk'
    rcases Multiset.mem_add.1 hv with hv | hv
    · rcases gained_or_held hp hk' with ⟨-, hg⟩ | ho
      · exact (h.fresh v (hgain v hg)).2.1 hv
      · exact h.gone v hv k' ho
    · have hlost := Multiset.mem_coe.1 hv
      by_cases hk : k' = k
      · have hkept : v ∈ Function.update s.held k vs k' := hk'
        rw [hk, Function.update_self] at hkept
        exact hvl v hkept v hlost rfl
      · have ho := (gained_or_held hp hk').resolve_left fun hg => hk hg.1
        rcases lost_of_mem hp hlost with hg | ho'
        · exact (h.fresh v (hgain v hg)).2.2.2 k' ho
        · exact hk (h.disjoint ho ho')
  · exact hnu
  · intro v hv
    obtain ⟨hx, hr, hi, hh⟩ := h.fresh v (Multiset.mem_of_le hu (Multiset.mem_add.2 (Or.inr hv)))
    have hng' : v ∉ gained := fun hg => Multiset.disjoint_left.1 hgu (Multiset.mem_coe.2 hg) hv
    refine ⟨hx, fun hr' => ?_, fun hi' => ?_, fun k' hk' => ?_⟩
    · refine (Multiset.mem_add.1 hr').elim hr fun hl => ?_
      exact (lost_of_mem hp (Multiset.mem_coe.1 hl)).elim hng' (hh k)
    · rw [map_fst_inserts, Multiset.mem_add] at hi'
      exact hi'.elim hi fun hg => hng' (Multiset.mem_coe.1 hg)
    · exact (gained_or_held hp hk').elim (fun hg => hng' hg.2) (hh k')

end

section
variable [DecidableEq ν]

/-- **An owed insertion** is made. -/
theorem insert (h : Consistent s) {v : ν} {k : κ} {inserts : Multiset (ν × κ)}
    (hi : s.inserts = (v, k) ::ₘ inserts) :
    Consistent { s with index := Function.update s.index v (some k), inserts } := by
  have hin : (v, k) ∈ s.inserts := hi ▸ Multiset.mem_cons_self ..
  have honce : v ∉ inserts.map Prod.fst ∧ (inserts.map Prod.fst).Nodup := by
    have hn := h.once
    rwa [hi, Multiset.map_cons, Multiset.nodup_cons] at hn
  have hsub : ∀ p ∈ inserts, p ∈ s.inserts := fun p hp => hi ▸ Multiset.mem_cons_of_mem hp
  have hfst : ∀ {w}, w ∈ inserts.map Prod.fst → w ∈ s.inserts.map Prod.fst := by
    intro w hw
    rw [hi, Multiset.map_cons]
    exact Multiset.mem_cons_of_mem hw
  refine ⟨h.nodup, fun k' w hw => ?_, fun w k' hx => ?_, fun w k' hw => ?_, honce.2, h.removes,
    h.gone, h.unused, fun w hw => ?_⟩
  · show Function.update s.index v (some k) w = some k' ∨ _
    by_cases hwv : w = v
    · subst hwv
      left
      rw [Function.update_self]
      rcases h.held k' w hw with hx | hx
      · rw [(h.owed w k hin).1] at hx
        cases hx
      · have hinj := Multiset.inj_on_of_nodup_map h.once (w, k) hin (w, k') hx rfl
        rw [(Prod.mk.inj hinj).2]
    · rw [Function.update_of_ne hwv]
      refine (h.held k' w hw).imp_right fun hx => ?_
      rw [hi] at hx
      exact (Multiset.mem_cons.1 hx).resolve_left fun hy => hwv (Prod.mk.inj hy).1
  · have hx : Function.update s.index v (some k) w = some k' := hx
    by_cases hwv : w = v
    · subst hwv
      rw [Function.update_self] at hx
      cases hx
      exact (h.owed w k hin).2
    · rw [Function.update_of_ne hwv] at hx
      exact h.indexed w k' hx
  · have hwv : w ≠ v := by
      rintro rfl
      exact honce.1 (Multiset.mem_map.2 ⟨_, hw, rfl⟩)
    show Function.update s.index v (some k) w = none ∧ _
    rw [Function.update_of_ne hwv]
    exact h.owed w k' (hsub _ hw)
  · obtain ⟨hx, hr, hins, hh⟩ := h.fresh w hw
    have hwv : w ≠ v := by
      rintro rfl
      exact hins (Multiset.mem_map.2 ⟨_, hin, rfl⟩)
    refine ⟨?_, hr, fun hx => hins (hfst hx), hh⟩
    show Function.update s.index v (some k) w = none
    rw [Function.update_of_ne hwv]
    exact hx

/-- **An owed removal** is made, of a value whose insertion is not owed. -/
theorem remove (h : Consistent s) {v : ν} {removes : Multiset ν} (hr : s.removes = v ::ₘ removes)
    (hc : v ∉ s.inserts.map Prod.fst) :
    Consistent { s with index := Function.update s.index v none, removes } := by
  have hin : v ∈ s.removes := hr ▸ Multiset.mem_cons_self ..
  have hn : v ∉ removes ∧ removes.Nodup := Multiset.nodup_cons.1 (hr ▸ h.removes)
  have hsub : ∀ w ∈ removes, w ∈ s.removes := fun w hw => hr ▸ Multiset.mem_cons_of_mem hw
  have hstill : ∀ {w k'}, w ≠ v → w ∈ s.held k' ∨ w ∈ s.removes → w ∈ s.held k' ∨ w ∈ removes :=
    fun hwv => Or.imp_right fun hx => (Multiset.mem_cons.1 (hr ▸ hx)).resolve_left hwv
  refine ⟨h.nodup, fun k' w hw => ?_, fun w k' hx => ?_, fun w k' hw => ?_, h.once, hn.2,
    fun w hw => h.gone w (hsub w hw), h.unused, fun w hw => ?_⟩
  · have hwv : w ≠ v := by
      rintro rfl
      exact h.gone w hin k' hw
    show Function.update s.index v none w = some k' ∨ _
    rw [Function.update_of_ne hwv]
    exact h.held k' w hw
  · have hx : Function.update s.index v none w = some k' := hx
    by_cases hwv : w = v
    · rw [hwv, Function.update_self] at hx
      cases hx
    · rw [Function.update_of_ne hwv] at hx
      exact hstill hwv (h.indexed w k' hx)
  · have hwv : w ≠ v := by
      rintro rfl
      exact hc (Multiset.mem_map.2 ⟨_, hw, rfl⟩)
    show Function.update s.index v none w = none ∧ _
    rw [Function.update_of_ne hwv]
    exact ⟨(h.owed w k' hw).1, hstill hwv (h.owed w k' hw).2⟩
  · obtain ⟨hx, hrm, hins, hh⟩ := h.fresh w hw
    have hwv : w ≠ v := by
      rintro rfl
      exact hrm hin
    refine ⟨?_, fun hy => hrm (hsub w hy), hins, hh⟩
    show Function.update s.index v none w = none
    rw [Function.update_of_ne hwv]
    exact hx

end

end Consistent

/-! ## Orphans -/

/-- The value is in the index or will be, no key holds it, and nothing is going
    to remove it. -/
structure Orphan (s : State κ ν) (v : ν) : Prop where
  indexed : s.index v ≠ none ∨ v ∈ s.inserts.map Prod.fst
  held : ∀ k, v ∉ s.held k
  removes : v ∉ s.removes
  unused : v ∉ s.unused

/-- With no insertion owed the index has an entry too many. -/
theorem Orphan.not_exact {s : State κ ν} {v : ν} (h : Orphan s v) (hi : s.inserts = 0) :
    ¬ Exact s.held s.index := by
  intro he
  have hx : s.index v ≠ none := h.indexed.resolve_right (by simp [hi])
  obtain ⟨k, hk⟩ := Option.ne_none_iff_exists'.1 hx
  exact h.held k ((he v k).1 hk)

namespace Orphan

variable {s : State κ ν} {v : ν}

theorem discard (h : Orphan s v) {unused : Multiset ν} (hu : unused ≤ s.unused) :
    Orphan { s with unused } v :=
  ⟨h.indexed, h.held, h.removes, fun hx => h.unused (Multiset.mem_of_le hu hx)⟩

theorem change [DecidableEq κ] (h : Orphan s v) {k : κ} {vs gained lost : List ν}
    {unused : Multiset ν} (hp : (vs ++ lost).Perm (gained ++ s.held k))
    (hu : ↑gained + unused ≤ s.unused) :
    Orphan
      { held := Function.update s.held k vs
        index := s.index
        inserts := s.inserts + ↑(gained.map fun v => (v, k))
        removes := s.removes + ↑lost
        unused } v := by
  have hun : v ∉ gained ∧ v ∉ unused := by
    have hx : v ∉ (gained : Multiset ν) + unused := fun hx => h.unused (Multiset.mem_of_le hu hx)
    rwa [Multiset.mem_add, not_or] at hx
  have hno : v ∉ vs ∧ v ∉ lost := by
    rw [← not_or, ← List.mem_append, hp.mem_iff, List.mem_append, not_or]
    exact ⟨hun.1, h.held k⟩
  refine ⟨h.indexed.imp_right fun hx => ?_, fun k' hk' => ?_, fun hr => ?_, hun.2⟩
  · rw [Multiset.map_add]
    exact Multiset.mem_add.2 (Or.inl hx)
  · have hk' : v ∈ Function.update s.held k vs k' := hk'
    rw [Function.update_apply] at hk'
    split_ifs at hk'
    · exact hno.1 hk'
    · exact h.held k' hk'
  · exact (Multiset.mem_add.1 hr).elim h.removes hno.2

variable [DecidableEq ν]

theorem insert (h : Orphan s v) {w : ν} {k : κ} {inserts : Multiset (ν × κ)}
    (hi : s.inserts = (w, k) ::ₘ inserts) :
    Orphan { s with index := Function.update s.index w (some k), inserts } v := by
  refine ⟨?_, h.held, h.removes, h.unused⟩
  show Function.update s.index w (some k) v ≠ none ∨ v ∈ inserts.map Prod.fst
  by_cases hv : v = w
  · left
    rw [hv, Function.update_self]
    exact Option.some_ne_none k
  · rw [Function.update_of_ne hv]
    refine h.indexed.imp_right fun hx => ?_
    rw [hi, Multiset.map_cons] at hx
    exact (Multiset.mem_cons.1 hx).resolve_left hv

theorem remove (h : Orphan s v) {w : ν} {removes : Multiset ν} (hr : s.removes = w ::ₘ removes) :
    Orphan { s with index := Function.update s.index w none, removes } v := by
  have hv : v ≠ w := by
    rintro rfl
    exact h.removes (hr ▸ Multiset.mem_cons_self ..)
  refine ⟨?_, h.held, fun hx => h.removes (hr ▸ Multiset.mem_cons_of_mem hx), h.unused⟩
  show Function.update s.index w none v ≠ none ∨ _
  rw [Function.update_of_ne hv]
  exact h.indexed

end Orphan

/-- A change of what keys hold, as seen by the index. -/
inductive Change [DecidableEq κ] (s : State κ ν) : State κ ν → Prop
  | discard {unused : Multiset ν} : unused ≤ s.unused → Change s { s with unused }
  | change {k : κ} {vs gained lost : List ν} {unused : Multiset ν} :
      (vs ++ lost).Perm (gained ++ s.held k) → ↑gained + unused ≤ s.unused →
      Change s
        { held := Function.update s.held k vs
          index := s.index
          inserts := s.inserts + ↑(gained.map fun v => (v, k))
          removes := s.removes + ↑lost
          unused }

theorem Consistent.of_change [DecidableEq κ] {s s' : State κ ν} (h : Consistent s)
    (hc : Change s s') : Consistent s' := by
  cases hc with
  | discard hu => exact h.discard hu
  | change hp hu => exact h.change hp hu

theorem Orphan.of_change [DecidableEq κ] {s s' : State κ ν} {v : ν} (h : Orphan s v)
    (hc : Change s s') : Orphan s' v := by
  cases hc with
  | discard hu => exact h.discard hu
  | change hp hu => exact h.change hp hu

/-- **Removed before it is inserted**, a value becomes an orphan. -/
theorem Consistent.orphan [DecidableEq ν] {s : State κ ν} (h : Consistent s) {v : ν}
    {removes : Multiset ν} (hr : s.removes = v ::ₘ removes) (hi : v ∈ s.inserts.map Prod.fst) :
    Orphan { s with index := Function.update s.index v none, removes } v := by
  have hin : v ∈ s.removes := hr ▸ Multiset.mem_cons_self ..
  refine ⟨Or.inr hi, h.gone v hin, (Multiset.nodup_cons.1 (hr ▸ h.removes)).1, fun hx => ?_⟩
  exact (h.fresh v hx).2.1 hin

end Deferred
