/-
  Where a browser goes after a sign-in or a refresh (`http/guards.rs`,
  `http/auth.rs`).

  * `safeReturnTo` looks at the first two characters and for line breaks;
  * `safe_return_to_iff`: what it accepts stays on the origin of the page
    exactly if no slash stands behind the first one and any tabs, which the
    browser drops.
-/
import SessionBroker.Lib.Url
import SessionBroker.Text

namespace SessionBroker

open Web

/-- `guards::safe_return_to`. -/
def safeReturnTo (candidate : Option String) : Option String := do
  let value ← candidate
  if value.toList[0]? ≠ some '/' then none
  else if value.toList[1]? = some '/' ∨ value.toList[1]? = some backslash then none
  else if value.toList.any fun c => c.toNat = 13 || c.toNat = 10 then none
  else return value

/-- `redirect`: what the `Location` header carries. -/
def redirect (location : String) : String :=
  if location.toList.all fun c => (32 ≤ c.toNat && c.toNat < 127) || c.toNat = 9 then location
  else "/"

/-- A slash stands behind the first one and some tabs. -/
def HidesHost (value : String) : Prop :=
  ∃ tabs c rest, value.toList = '/' :: (tabs ++ c :: rest) ∧ (∀ t ∈ tabs, t.toNat = 9) ∧
    isSlash c = true

theorem safeReturnTo_eq_some {value : String} : safeReturnTo (some value) = some value ↔
    ∃ rest, value.toList = '/' :: rest ∧ (∀ c, rest.head? = some c → isSlash c = false) ∧
      ∀ c ∈ rest, c.toNat ≠ 13 ∧ c.toNat ≠ 10 := by
  unfold safeReturnTo
  rw [Option.bind_eq_bind, Option.bind_some]
  constructor
  · intro h
    split_ifs at h with hfirst hsecond hbreaks
    rw [not_not] at hfirst
    obtain ⟨rest, hvalue⟩ : ∃ rest, value.toList = '/' :: rest := by
      cases hlist : value.toList with
      | nil => simp [hlist] at hfirst
      | cons first rest =>
        rw [hlist, List.getElem?_cons_zero, Option.some.injEq] at hfirst
        exact ⟨rest, by rw [hfirst]⟩
    rw [hvalue] at hsecond hbreaks
    refine ⟨rest, hvalue, fun c hc => ?_, fun c hc => ?_⟩
    · rw [List.head?_eq_getElem?] at hc
      simp only [List.getElem?_cons_succ, hc, Option.some.injEq, not_or] at hsecond
      simp [isSlash, hsecond]
    · have hall := hbreaks
      simp only [List.any_cons, Bool.or_eq_true, List.any_eq_true, decide_eq_true_eq, not_or,
        not_exists, not_and] at hall
      exact hall.2 c hc
  · rintro ⟨rest, hvalue, hsecond, hbreaks⟩
    have hhead : ¬(rest[0]? = some '/' ∨ rest[0]? = some backslash) := by
      rw [← List.head?_eq_getElem?]
      rintro (h | h)
      · exact absurd (hsecond _ h) (by decide)
      · exact absurd (hsecond _ h) (by decide)
    rw [hvalue, if_neg (by simp), List.getElem?_cons_succ, if_neg hhead, if_neg]
    · rfl
    · simp only [List.any_cons, Bool.or_eq_true, List.any_eq_true, decide_eq_true_eq, not_or]
      refine ⟨by decide, ?_⟩
      rintro ⟨c, hc, h⟩
      have hno := hbreaks c hc
      omega

theorem namesHost_iff {value : String} (h : safeReturnTo (some value) = some value) :
    NamesHost value.toList ↔ HidesHost value := by
  obtain ⟨rest, hvalue, -, hbreaks⟩ := safeReturnTo_eq_some.1 h
  rw [HidesHost, hvalue, namesHost_cons (by decide)]
  constructor
  · rintro ⟨gone, c, tail, hrest, hgone, hc⟩
    refine ⟨gone, c, tail, by rw [hrest], fun t ht => ?_, hc⟩
    have htab := hgone t ht
    have hno := hbreaks t (by rw [hrest]; exact List.mem_append_left _ ht)
    simp only [isTabOrNewline, Bool.or_eq_true, decide_eq_true_eq] at htab
    omega
  · rintro ⟨tabs, c, tail, hrest, htabs, hc⟩
    refine ⟨tabs, c, tail, (List.cons.inj hrest).2, fun t ht => ?_, hc⟩
    simp [isTabOrNewline, htabs t ht]

/-- **Where an accepted target leads**: to the origin of every page exactly if it
    hides no host. -/
theorem safe_return_to_iff {H : Type} (hostParser : List Char → Option H) {h₁ h₂ : H}
    {text₁ text₂ : List Char} (hne : h₁ ≠ h₂) (hhost₁ : hostParser text₁ = some h₁)
    (hhost₂ : hostParser text₂ = some h₂) (value : String)
    (haccepted : safeReturnTo (some value) = some value) :
    (∀ base, base.Valid hostParser → resolve hostParser base value.toList = some base) ↔
      ¬HidesHost value := by
  rw [← namesHost_iff haccepted]
  exact stays_iff hne hhost₁ hhost₂

namespace Redirected

/-- The host parser on domains in lower case. -/
def domain (text : List Char) : Option String :=
  if text ≠ [] ∧ text.all fun c => c.isLower || c = '.' then some (.ofList text) else none

def page : Origin String := ⟨.https, "app.example", none⟩

def home : String := .ofList ['/', 'h', 'o', 'm', 'e']

def tabbed : String := .ofList ('/' :: Char.ofNat 9 :: "/evil.example".toList)

end Redirected

open Redirected in
theorem safe_return_to_home : safeReturnTo (some home) = some home ∧
    resolve domain page home.toList = some page := by
  have haccepted : safeReturnTo (some home) = some home := by decide +kernel
  have hfirst : domain "a".toList = some "a" := by decide +kernel
  have hsecond : domain "b".toList = some "b" := by decide +kernel
  refine ⟨haccepted, (safe_return_to_iff domain (by decide) hfirst hsecond home haccepted).2 ?_ page
    ⟨⟨"app.example".toList, by decide +kernel⟩, nofun⟩⟩
  rintro ⟨tabs, c, rest, hhome, htabs, hc⟩
  rw [home, String.toList_ofList, List.cons.injEq] at hhome
  cases tabs with
  | nil =>
    cases hhome.2
    exact absurd hc (by decide)
  | cons t tabs =>
    obtain ⟨rfl, -⟩ := List.cons.inj hhome.2
    exact absurd (htabs _ List.mem_cons_self) (by decide)

open Redirected in
/-- A tab behind the first slash hides the second one. -/
theorem safe_return_to_leaves :
    (¬∀ value, safeReturnTo (some value) = some value →
      ∀ base, base.Valid domain → resolve domain base value.toList = some base) ∧
    redirect tabbed = tabbed ∧
    resolve domain page tabbed.toList = some ⟨.https, "evil.example", none⟩ := by
  have hleads : resolve domain page tabbed.toList = some ⟨.https, "evil.example", none⟩ := by
    decide +kernel
  refine ⟨fun h => ?_, by decide +kernel, hleads⟩
  have hstays := h tabbed (by decide +kernel) page ⟨⟨"app.example".toList, by decide +kernel⟩, nofun⟩
  rw [hleads] at hstays
  exact absurd hstays (by decide)

end SessionBroker
