/-
  The first of a list in descending order of a rank.

  * `newestFirst rank l` sorts; among the elements that a partial function
    accepts, the first one is one of the highest rank
    (`findSome?_newestFirst`), and there is one iff any is accepted;
  * `exists_latest`: an element of the highest rank among those with a
    property.
-/
import Mathlib.Data.List.Sort

namespace Latest

variable {α β γ : Type*} [LinearOrder β] {rank : α → β} {l : List α}

/-- The list in descending order of `rank`. -/
def newestFirst (rank : α → β) (l : List α) : List α :=
  l.insertionSort fun a b => rank b ≤ rank a

@[simp] theorem mem_newestFirst {a : α} : a ∈ newestFirst rank l ↔ a ∈ l :=
  List.mem_insertionSort _

theorem pairwise_newestFirst (rank : α → β) (l : List α) :
    (newestFirst rank l).Pairwise fun a b => rank b ≤ rank a := by
  have : Std.Total fun a b : α => rank b ≤ rank a := ⟨fun a b => le_total (rank b) (rank a)⟩
  have : IsTrans α fun a b => rank b ≤ rank a := ⟨fun _ _ _ h h' => le_trans h' h⟩
  exact List.pairwise_insertionSort _ l

/-- The first accepted element of a list in descending order. -/
theorem findSome?_of_pairwise {f : α → Option γ} {c : γ}
    (hp : l.Pairwise fun a b => rank b ≤ rank a) (h : l.findSome? f = some c) :
    ∃ a ∈ l, f a = some c ∧ ∀ b ∈ l, (f b).isSome → rank b ≤ rank a := by
  induction l with
  | nil => cases h
  | cons a l ih =>
    rw [List.pairwise_cons] at hp
    rw [List.findSome?_cons] at h
    cases hf : f a with
    | some c' =>
      rw [hf] at h
      refine ⟨a, List.mem_cons_self .., hf.trans h, fun b hb _ => ?_⟩
      rcases List.mem_cons.1 hb with rfl | hb
      · exact le_rfl
      · exact hp.1 b hb
    | none =>
      rw [hf] at h
      obtain ⟨a', ha', hc, hmax⟩ := ih hp.2 h
      refine ⟨a', List.mem_cons_of_mem _ ha', hc, fun b hb hs => ?_⟩
      rcases List.mem_cons.1 hb with rfl | hb
      · rw [hf] at hs
        cases hs
      · exact hmax b hb hs

/-- A filter first is a condition on what is accepted. -/
theorem findSome?_filter {p : α → Bool} {f : α → Option γ} (l : List α) :
    (l.filter p).findSome? f = l.findSome? fun a => if p a then f a else none := by
  induction l with
  | nil => rfl
  | cons a l ih =>
    cases h : p a <;> simp [List.findSome?_cons, h, ih]

/-- **The newest accepted element** is the one found. -/
theorem findSome?_newestFirst {f : α → Option γ} {c : γ}
    (h : (newestFirst rank l).findSome? f = some c) :
    ∃ a ∈ l, f a = some c ∧ ∀ b ∈ l, (f b).isSome → rank b ≤ rank a := by
  obtain ⟨a, ha, hc, hmax⟩ := findSome?_of_pairwise (pairwise_newestFirst rank l) h
  exact ⟨a, mem_newestFirst.1 ha, hc, fun b hb => hmax b (mem_newestFirst.2 hb)⟩

theorem findSome?_newestFirst_isSome {f : α → Option γ} :
    ((newestFirst rank l).findSome? f).isSome ↔ ∃ a ∈ l, (f a).isSome := by
  simp [List.findSome?_isSome_iff]

/-- The accepted element of the highest rank, where no other has that rank. -/
theorem findSome?_newestFirst_eq {f : α → Option γ} {a : α} {c : γ} (ha : a ∈ l) (hf : f a = some c)
    (hmax : ∀ b ∈ l, (f b).isSome → rank b ≤ rank a) (hinj : ∀ b ∈ l, rank b = rank a → b = a) :
    (newestFirst rank l).findSome? f = some c := by
  have hsome : ((newestFirst rank l).findSome? f).isSome :=
    findSome?_newestFirst_isSome.2 ⟨a, ha, by simp [hf]⟩
  obtain ⟨d, hd⟩ := Option.isSome_iff_exists.1 hsome
  obtain ⟨b, hb, hfb, hmax'⟩ := findSome?_newestFirst hd
  have hrank : rank b = rank a :=
    le_antisymm (hmax b hb (by simp [hfb])) (hmax' a ha (by simp [hf]))
  obtain rfl := hinj b hb hrank
  rw [hd, ← hfb, hf]

/-- One of the highest rank among those with a property. -/
theorem exists_latest (rank : α → β) {p : α → Prop} (h : ∃ a ∈ l, p a) :
    ∃ a ∈ l, p a ∧ ∀ b ∈ l, p b → rank b ≤ rank a := by
  classical
  have hs : ((newestFirst rank l).findSome? fun a => if p a then some a else none).isSome := by
    obtain ⟨a, ha, hp⟩ := h
    exact findSome?_newestFirst_isSome.2 ⟨a, ha, by simp [hp]⟩
  obtain ⟨c, hc⟩ := Option.isSome_iff_exists.1 hs
  obtain ⟨a, ha, hf, hmax⟩ := findSome?_newestFirst hc
  have hp : p a := by
    by_contra hp
    simp [hp] at hf
  exact ⟨a, ha, hp, fun b hb hpb => hmax b hb (by simp [hpb])⟩

end Latest
