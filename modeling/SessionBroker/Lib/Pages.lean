/-
  Reading a keyed table from its largest key down, a page at a time, while rows
  come and go.

  * `page` is the rows below a cursor, at most `limit` of them; `cursor` is the
    last key of a full page; `follow` asks for page after page until one has no
    cursor, each in the state the table is in by then;
  * `follow_descending`: the rows come in descending order of their keys;
  * `follow_page` and `follow_disjoint`: every key has its page, and a row that
    is in the table when that page is read is on it;
  * `follow_ends`: where rows only come with new keys, the cursors end.
-/
import SessionBroker.Lib.Latest
import SessionBroker.Lib.Table
import Mathlib.Data.List.Chain

namespace Pages

open Latest Table

variable {ρ κ : Type*} [LinearOrder κ]

/-! ## One page -/

/-- Whether a key comes after the cursor. -/
def below (before : Option κ) (k : κ) : Bool := before.all fun b => k < b

theorem below_some {b k : κ} : below (some b) k = true ↔ k < b := by simp [below]

theorem below_trans {before : Option κ} {b k : κ} (h : below (some b) k = true)
    (hb : below before b = true) : below before k = true := by
  cases before with
  | none => rfl
  | some c => exact below_some.2 ((below_some.1 h).trans (below_some.1 hb))

/-- `WHERE p AND key < before ORDER BY key DESC LIMIT limit`. -/
def page (key : ρ → κ) (p : ρ → Bool) (limit : ℕ) (before : Option κ) (t : List ρ) : List ρ :=
  (newestFirst key (t.filter fun r => p r && below before (key r))).take limit

/-- Where the next page starts. -/
def cursor (key : ρ → κ) (limit : ℕ) (rows : List ρ) : Option κ :=
  if limit ≤ rows.length then rows.getLast?.map key else none

section
variable {key : ρ → κ} {p : ρ → Bool} {limit : ℕ} {before : Option κ} {t : List ρ} {r : ρ}

theorem mem_page (h : r ∈ page key p limit before t) :
    r ∈ t ∧ p r = true ∧ below before (key r) = true := by
  have hr := mem_newestFirst.1 (List.mem_of_mem_take h)
  simp only [List.mem_filter, Bool.and_eq_true] at hr
  exact hr

theorem newestFirst_descending {l : List ρ} (h : UniqueOn key l) :
    (newestFirst key l).Pairwise fun a b => key b < key a := by
  have hne : (newestFirst key l).Pairwise fun a b => key a ≠ key b :=
    List.pairwise_map.1 (((List.perm_insertionSort _ l).map key).nodup_iff.2 h)
  refine (pairwise_newestFirst key l).imp₂ (fun a b hle hn => ?_) hne
  exact lt_of_le_of_ne hle (Ne.symm hn)

theorem page_descending (h : UniqueOn key t) :
    (page key p limit before t).Pairwise fun a b => key b < key a :=
  (newestFirst_descending (h.filter _)).sublist (List.take_sublist ..)

omit [LinearOrder κ] in
/-- A cursor is the last key of a page that is full. -/
theorem cursor_eq_some {rows : List ρ} {b : κ} (h : cursor key limit rows = some b) :
    limit ≤ rows.length ∧ ∃ init last, rows = init ++ [last] ∧ key last = b := by
  unfold cursor at h
  split_ifs at h with hfull
  obtain ⟨last, hlast, hb⟩ := Option.map_eq_some_iff.1 h
  obtain ⟨init, hinit⟩ := List.getLast?_eq_some_iff.1 hlast
  exact ⟨hfull, init, last, hinit, hb⟩

/-- The rows of a page are not below its cursor. -/
theorem cursor_le (h : UniqueOn key t) {b : κ}
    (hb : cursor key limit (page key p limit before t) = some b)
    (hr : r ∈ page key p limit before t) : b ≤ key r := by
  obtain ⟨-, init, last, hrows, rfl⟩ := cursor_eq_some hb
  have hdesc : (page key p limit before t).Pairwise fun a b => key b < key a := page_descending h
  rw [hrows] at hdesc hr
  rcases List.mem_append.1 hr with hr | hr
  · exact ((List.pairwise_append.1 hdesc).2.2 r hr last (List.mem_singleton_self _)).le
  · rw [List.mem_singleton.1 hr]

theorem cursor_below {b : κ} (hb : cursor key limit (page key p limit before t) = some b) :
    below before b = true := by
  obtain ⟨-, init, last, hrows, rfl⟩ := cursor_eq_some hb
  exact (mem_page (hrows ▸ List.mem_append_right init (List.mem_singleton_self last))).2.2

/-- **A page is whole**: from its start to its cursor no row is left out. -/
theorem mem_page_of_le (h : UniqueOn key t) (hlimit : 0 < limit) (hr : r ∈ t) (hp : p r = true)
    (hb : below before (key r) = true)
    (hnext : ∀ b, cursor key limit (page key p limit before t) = some b → b ≤ key r) :
    r ∈ page key p limit before t := by
  have hmem : r ∈ newestFirst key (t.filter fun r => p r && below before (key r)) :=
    mem_newestFirst.2 (List.mem_filter.2 ⟨hr, by rw [hp, hb]; rfl⟩)
  have hdesc := newestFirst_descending (h.filter fun r => p r && below before (key r))
  rw [← List.take_append_drop limit (newestFirst key _)] at hmem hdesc
  rcases List.mem_append.1 hmem with htake | hdrop
  · exact htake
  · -- what is left out comes after a full page, hence below its last row
    exfalso
    have hlen : limit < (newestFirst key (t.filter fun r => p r && below before (key r))).length := by
      by_contra hle
      rw [List.drop_of_length_le (not_lt.1 hle)] at hdrop
      exact List.not_mem_nil hdrop
    have hfull : limit ≤ (page key p limit before t).length := by
      rw [page, List.length_take]
      omega
    have hne : page key p limit before t ≠ [] := List.ne_nil_of_length_pos (by omega)
    have hnext' := hnext (key ((page key p limit before t).getLast hne)) (by
      rw [cursor, if_pos hfull, List.getLast?_eq_some_getLast hne]
      rfl)
    exact absurd ((List.pairwise_append.1 hdesc).2.2 _ (List.getLast_mem hne) r hdrop)
      (not_lt.2 hnext')

end

/-! ## Page after page -/

/-- A request: where it started, the table it read, and the page. -/
structure Request (ρ κ : Type*) where
  before : Option κ
  table : List ρ
  rows : List ρ

/-- The requests of a client that follows the cursors, one for each of the
    tables, and whether it came to the end. -/
def follow (key : ρ → κ) (p : ρ → Bool) (limit : ℕ) :
    Option κ → List (List ρ) → List (Request ρ κ) × Bool
  | _, [] => ([], false)
  | before, t :: tables =>
    let rows := page key p limit before t
    match cursor key limit rows with
    | none => ([⟨before, t, rows⟩], true)
    | some b =>
      let rest := follow key p limit (some b) tables
      (⟨before, t, rows⟩ :: rest.1, rest.2)

/-- The page a key is on, if its row is there. -/
def Request.Covers (key : ρ → κ) (limit : ℕ) (req : Request ρ κ) (k : κ) : Prop :=
  below req.before k = true ∧ ∀ b, cursor key limit req.rows = some b → b ≤ k

/-- All that was read. -/
def rowsRead (requests : List (Request ρ κ)) : List ρ := requests.flatMap (·.rows)

section
variable {key : ρ → κ} {p : ρ → Bool} {limit : ℕ} {before : Option κ} {tables : List (List ρ)}

/-- What a client that follows the cursors reads is below where it starts. -/
theorem follow_below {req : Request ρ κ} (h : req ∈ (follow key p limit before tables).1) :
    (∀ k, below req.before k = true → below before k = true) ∧
      req.table ∈ tables ∧ req.rows = page key p limit req.before req.table := by
  induction tables generalizing before with
  | nil => exact absurd h List.not_mem_nil
  | cons t tables ih =>
    unfold follow at h
    dsimp only at h
    split at h
    · obtain rfl := List.mem_singleton.1 h
      exact ⟨fun _ hk => hk, List.mem_cons_self, rfl⟩
    · rename_i b hb
      rcases List.mem_cons.1 h with rfl | h
      · exact ⟨fun _ hk => hk, List.mem_cons_self, rfl⟩
      · obtain ⟨hbelow, htable, hrows⟩ := ih h
        refine ⟨fun k hk => ?_, List.mem_cons_of_mem _ htable, hrows⟩
        exact below_trans (hbelow k hk) (cursor_below hb)

/-- **The rows come in descending order**, no key twice. -/
theorem follow_descending (h : ∀ t ∈ tables, UniqueOn key t) :
    (rowsRead (follow key p limit before tables).1).Pairwise fun a b => key b < key a := by
  induction tables generalizing before with
  | nil => exact List.Pairwise.nil
  | cons t tables ih =>
    have ht := h t List.mem_cons_self
    have hrest : ∀ t' ∈ tables, UniqueOn key t' := fun t' hm => h t' (List.mem_cons_of_mem _ hm)
    unfold follow
    dsimp only
    split
    · simpa [rowsRead] using page_descending ht
    · rename_i b hb
      simp only [rowsRead, List.flatMap_cons]
      refine List.pairwise_append.2 ⟨page_descending ht, ih hrest, fun r hr r' hr' => ?_⟩
      obtain ⟨req, hreq, hr'⟩ := List.mem_flatMap.1 hr'
      obtain ⟨hbelow, -, hrows⟩ := follow_below hreq
      have hlt := hbelow _ (mem_page (hrows ▸ hr')).2.2
      exact lt_of_lt_of_le (below_some.1 hlt) (cursor_le ht hb hr)

/-- **A key has one page at most.** -/
theorem follow_disjoint (k : κ) : (follow key p limit before tables).1.Pairwise fun req req' =>
    ¬ (req.Covers key limit k ∧ req'.Covers key limit k) := by
  induction tables generalizing before with
  | nil => exact List.Pairwise.nil
  | cons t tables ih =>
    unfold follow
    dsimp only
    split
    · exact List.pairwise_singleton ..
    · rename_i b hb
      refine List.pairwise_cons.2 ⟨fun req' hreq' => ?_, ih⟩
      rintro ⟨hcov, hcov'⟩
      have hlt := below_some.1 ((follow_below hreq').1 k hcov'.1)
      exact absurd (hcov.2 b hb) (not_le.2 hlt)

/-- **Every key has its page**, and a row that is in the table when that page is
    read is on it. -/
theorem follow_page (h : ∀ t ∈ tables, UniqueOn key t) (hlimit : 0 < limit)
    (hend : (follow key p limit before tables).2 = true) {k : κ} (hk : below before k = true) :
    ∃ req ∈ (follow key p limit before tables).1, req.Covers key limit k ∧
      ∀ r ∈ req.table, p r = true → key r = k → r ∈ req.rows := by
  induction tables generalizing before with
  | nil => cases hend
  | cons t tables ih =>
    have hwhole (hc : ∀ b, cursor key limit (page key p limit before t) = some b → b ≤ k) :
        ∀ r ∈ t, p r = true → key r = k → r ∈ page key p limit before t := by
      rintro r hr hp rfl
      exact mem_page_of_le (h t List.mem_cons_self) hlimit hr hp hk hc
    unfold follow at hend ⊢
    dsimp only at hend ⊢
    split at hend
    · rename_i hb
      have hc : ∀ b, cursor key limit (page key p limit before t) = some b → b ≤ k := by
        intro b hcur
        rw [hb] at hcur
        cases hcur
      exact ⟨_, List.mem_singleton_self _, ⟨hk, hc⟩, hwhole hc⟩
    · rename_i b hb
      by_cases hle : b ≤ k
      · have hc : ∀ b', cursor key limit (page key p limit before t) = some b' → b' ≤ k := by
          intro b' hcur
          obtain rfl := Option.some.inj (hb.symm.trans hcur)
          exact hle
        exact ⟨_, List.mem_cons_self, ⟨hk, hc⟩, hwhole hc⟩
      · obtain ⟨req, hreq, hcov, hmem⟩ := ih (fun t' hm => h t' (List.mem_cons_of_mem _ hm)) hend
          (below_some.2 (not_le.1 hle))
        exact ⟨req, List.mem_cons_of_mem _ hreq, hcov, hmem⟩

/-! ## The end -/

/-- The rows a client has still to read. -/
def ahead (key : ρ → κ) (p : ρ → Bool) (before : Option κ) (t : List ρ) : List ρ :=
  t.filter fun r => p r && below before (key r)

/-- From one state of a table, with the last key it handed out, to a later one:
    what is new has a new key. -/
structure Grows (key : ρ → κ) (s s' : List ρ × κ) : Prop where
  last : s.2 ≤ s'.2
  rows : ∀ r ∈ s'.1, r ∈ s.1 ∨ s.2 < key r

theorem Grows.refl (s : List ρ × κ) : Grows key s s := ⟨le_rfl, fun _ hr => Or.inl hr⟩

theorem Grows.trans {s₁ s₂ s₃ : List ρ × κ} (h : Grows key s₁ s₂) (h' : Grows key s₂ s₃) :
    Grows key s₁ s₃ := by
  refine ⟨h.last.trans h'.last, fun r hr => ?_⟩
  rcases h'.rows r hr with hr | hr
  · exact h.rows r hr
  · exact Or.inr (h.last.trans_lt hr)

/-- A full page leaves less ahead, whatever has come meanwhile. -/
theorem ahead_length {s s' : List ρ × κ} (hg : Grows key s s') (hu : UniqueOn key s.1)
    (hu' : UniqueOn key s'.1) (hlast : ∀ r ∈ s.1, key r ≤ s.2) {b : κ}
    (hb : cursor key limit (page key p limit before s.1) = some b) :
    limit + (ahead key p (some b) s'.1).length ≤ (ahead key p before s.1).length := by
  obtain ⟨hfull, init, last, hrows, hkey⟩ := cursor_eq_some hb
  have hlast_mem : last ∈ page key p limit before s.1 := by simp [hrows]
  have hnodup : (page key p limit before s.1 ++ ahead key p (some b) s'.1).Nodup := by
    refine List.nodup_append.2 ⟨?_, (List.Nodup.of_map key hu').filter _, ?_⟩
    · exact (page_descending hu).imp fun h => by rintro rfl; exact lt_irrefl _ h
    · rintro r hr _ hr' rfl
      have hlt := (List.mem_filter.1 hr').2
      rw [Bool.and_eq_true, below_some] at hlt
      exact absurd hlt.2 (not_lt.2 (cursor_le hu hb hr))
  have hsub : page key p limit before s.1 ++ ahead key p (some b) s'.1 ⊆ ahead key p before s.1 := by
    intro r hr
    rcases List.mem_append.1 hr with hr | hr
    · obtain ⟨hmem, hp, hbelow⟩ := mem_page hr
      exact List.mem_filter.2 ⟨hmem, by rw [hp, hbelow]; rfl⟩
    · obtain ⟨hmem, hcond⟩ := List.mem_filter.1 hr
      rw [Bool.and_eq_true] at hcond
      -- below the cursor nothing is new
      have hold : key r < s.2 :=
        (below_some.1 hcond.2).trans_le (hkey ▸ hlast last (mem_page hlast_mem).1)
      have hmem' : r ∈ s.1 := (hg.rows r hmem).resolve_right (not_lt.2 hold.le)
      refine List.mem_filter.2 ⟨hmem', ?_⟩
      rw [hcond.1, below_trans hcond.2 (cursor_below hb)]
      rfl
  have hlen := (List.subperm_of_subset hnodup hsub).length_le
  rw [List.length_append] at hlen
  omega

/-- **The cursors end**: with so many requests, for the rows that were there at
    the first one. -/
theorem follow_ends {s : List ρ × κ} {states : List (List ρ × κ)}
    (hchain : (s :: states).IsChain (Grows key)) (hu : ∀ s' ∈ s :: states, UniqueOn key s'.1)
    (hlast : ∀ s' ∈ s :: states, ∀ r ∈ s'.1, key r ≤ s'.2)
    (hlen : (ahead key p before s.1).length < (states.length + 1) * limit) :
    (follow key p limit before ((s :: states).map Prod.fst)).2 = true := by
  induction states generalizing s before with
  | nil =>
    simp only [List.map_cons, List.map_nil, follow]
    split
    · rfl
    · rename_i b hb
      have hu₀ := hu s List.mem_cons_self
      have hle := ahead_length (Grows.refl s) hu₀ hu₀ (hlast s List.mem_cons_self) hb
      simp only [List.length_nil] at hlen
      omega
  | cons s' states ih =>
    rw [List.map_cons, follow]
    dsimp only
    split
    · rfl
    · rename_i b hb
      obtain ⟨hg, hchain⟩ := List.isChain_cons_cons.1 hchain
      have hle := ahead_length hg (hu s List.mem_cons_self)
        (hu s' (List.mem_cons_of_mem _ List.mem_cons_self)) (hlast s List.mem_cons_self) hb
      refine ih hchain (fun t ht => hu t (List.mem_cons_of_mem _ ht))
        (fun t ht => hlast t (List.mem_cons_of_mem _ ht)) ?_
      rw [List.length_cons, Nat.add_mul _ 1, Nat.one_mul] at hlen
      omega

end

end Pages
