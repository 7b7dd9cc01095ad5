/-
  References of the web as browsers resolve them (the URL Standard): what an
  input without a scheme of its own makes of the origin of an http or https
  page.

  * `clean`: control characters and spaces around the input go, and so do tabs
    and line breaks anywhere;
  * `resolve`: an input that starts with two slashes of either kind names a
    host, and any other keeps the origin of the page;
  * `stays_iff`: an input stays on every page's origin exactly if it names no
    host.  The host parser is a parameter.
-/
import SessionBroker.Lib.Trim

namespace Web

/-! ## Origins -/

inductive Scheme where
  | http
  | https
deriving DecidableEq, Repr

def Scheme.defaultPort : Scheme → ℕ
  | http => 80
  | https => 443

/-- An origin; the port is there where it is not the scheme's own. -/
structure Origin (H : Type) where
  scheme : Scheme
  host : H
  port : Option ℕ
deriving DecidableEq, Repr

variable {H : Type} (hostParser : List Char → Option H)

/-- An origin that some URL has. -/
structure Origin.Valid (base : Origin H) : Prop where
  host : ∃ text, hostParser text = some base.host
  port : ∀ port, base.port = some port → port < 65536 ∧ port ≠ base.scheme.defaultPort

/-! ## The parser -/

def backslash : Char := Char.ofNat 0x5C

/-- What a special scheme takes for a slash. -/
def isSlash (c : Char) : Bool := c = '/' || c = backslash

/-- A C0 control or a space. -/
def isBlank (c : Char) : Bool := c.toNat ≤ 0x20

/-- An ASCII tab or newline. -/
def isTabOrNewline (c : Char) : Bool := c.toNat = 9 || c.toNat = 10 || c.toNat = 13

/-- The input that the states of the parser see. -/
def clean (input : List Char) : List Char :=
  ((input.dropWhile isBlank).rdropWhile isBlank).filter fun c => !isTabOrNewline c

/-- The host in the text, and the port after the first colon that is in no
    brackets. -/
def splitPort (inBrackets : Bool) : List Char → List Char × Option (List Char)
  | [] => ([], none)
  | c :: rest =>
    if c = ':' ∧ inBrackets = false then ([], some rest)
    else
      let inBrackets := if c = '[' then true else if c = ']' then false else inBrackets
      (c :: (splitPort inBrackets rest).1, (splitPort inBrackets rest).2)

/-- The port state. -/
def parsePort (scheme : Scheme) : List Char → Option (Option ℕ)
  | [] => some none
  | digits =>
    let port := digits.foldl (fun n c => 10 * n + (c.toNat - '0'.toNat)) 0
    if digits.all Char.isDigit ∧ port < 65536 then
      some (if port = scheme.defaultPort then none else some port)
    else none

/-- The host state. -/
def parseHostPort (scheme : Scheme) (text : List Char) : Option (Origin H) := do
  let (host, port) := splitPort false text
  if host = [] then none
  else
    let host ← hostParser host
    let port ← parsePort scheme (port.getD [])
    return ⟨scheme, host, port⟩

/-- The authority state, past any more slashes: the host stands behind the last
    `@`. -/
def parseAuthority (scheme : Scheme) (text : List Char) : Option (Origin H) :=
  let authority := (text.dropWhile isSlash).takeWhile fun c => !(isSlash c || c = '?' || c = '#')
  let hostPort := authority.rtakeWhile (· ≠ '@')
  if '@' ∈ authority ∧ hostPort = [] then none else parseHostPort hostParser scheme hostPort

/-- The relative states: the origin of the URL that the input resolves to. -/
def resolve (base : Origin H) (input : List Char) : Option (Origin H) :=
  match clean input with
  | a :: b :: rest =>
    if isSlash a && isSlash b then parseAuthority hostParser base.scheme rest else some base
  | _ => some base

/-! ## Inputs that name a host -/

/-- Two slashes stand first. -/
def NamesHost (input : List Char) : Prop :=
  ∃ a b rest, clean input = a :: b :: rest ∧ isSlash a = true ∧ isSlash b = true

variable {hostParser} {base base' : Origin H} {input : List Char}

theorem resolve_of_not (h : ¬NamesHost input) : resolve hostParser base input = some base := by
  unfold resolve
  split
  · rename_i a b rest hclean
    refine if_neg fun hslash => h ⟨a, b, rest, hclean, ?_⟩
    simpa using hslash
  · rfl

/-- A host that is named has nothing of the page but the scheme. -/
theorem resolve_of_names (h : NamesHost input) (hscheme : base.scheme = base'.scheme) :
    resolve hostParser base input = resolve hostParser base' input := by
  obtain ⟨a, b, rest, hclean, ha, hb⟩ := h
  simp [resolve, hclean, ha, hb, hscheme]

/-- **Inputs that stay**: from every page they resolve to the page's origin
    exactly if they name no host, where there is more than one host to have a
    page on. -/
theorem stays_iff {h₁ h₂ : H} {text₁ text₂ : List Char} (hne : h₁ ≠ h₂)
    (hhost₁ : hostParser text₁ = some h₁) (hhost₂ : hostParser text₂ = some h₂) :
    (∀ base, base.Valid hostParser → resolve hostParser base input = some base) ↔
      ¬NamesHost input := by
  constructor
  · intro hstays hnames
    have hfirst := hstays ⟨.https, h₁, none⟩ ⟨⟨text₁, hhost₁⟩, nofun⟩
    have hsecond := hstays ⟨.https, h₂, none⟩ ⟨⟨text₂, hhost₂⟩, nofun⟩
    have hsame : resolve hostParser ⟨.https, h₁, none⟩ input =
        resolve hostParser ⟨.https, h₂, none⟩ input := resolve_of_names hnames rfl
    rw [hfirst, hsecond] at hsame
    simp only [Option.some.injEq, Origin.mk.injEq, true_and, and_true] at hsame
    exact hne hsame
  · intro hnot base _
    exact resolve_of_not hnot

/-- An input that starts with a slash names a host exactly if the next character
    that stays is one too. -/
theorem namesHost_cons {first : Char} {rest : List Char} (hfirst : isSlash first = true) :
    NamesHost (first :: rest) ↔ ∃ gone c tail, rest = gone ++ c :: tail ∧
      (∀ x ∈ gone, isTabOrNewline x = true) ∧ isSlash c = true := by
  have hslash : ∀ {c}, isSlash c = true → isBlank c = false ∧ isTabOrNewline c = false := by
    intro c hc
    rcases (by simpa [isSlash] using hc : c = '/' ∨ c = backslash) with rfl | rfl <;>
      exact ⟨by decide, by decide⟩
  have hclean : clean (first :: rest) =
      first :: (rest.rdropWhile isBlank).filter fun c => !isTabOrNewline c := by
    have hends := Trim.rdropWhile_append_cons (hslash hfirst).1 [] rest
    simp only [List.nil_append] at hends
    rw [clean, List.dropWhile_cons_of_neg (by simp [(hslash hfirst).1]), hends,
      List.filter_cons_of_pos (by simp [(hslash hfirst).2])]
  unfold NamesHost
  rw [hclean]
  constructor
  · rintro ⟨a, b, tail, heq, -, hb⟩
    obtain ⟨rfl, hfilter⟩ := List.cons.inj heq
    obtain ⟨gone, tail', hrest, hgone, -, -⟩ := List.filter_eq_cons_iff.1 hfilter
    obtain ⟨ends, hends⟩ := List.rdropWhile_prefix isBlank rest
    refine ⟨gone, b, tail' ++ ends, ?_, fun x hx => by simpa using hgone x hx, hb⟩
    rw [← hends, hrest]
    simp
  · rintro ⟨gone, c, tail, rfl, hgone, hc⟩
    refine ⟨first, c, (tail.rdropWhile isBlank).filter fun c => !isTabOrNewline c, ?_, hfirst, hc⟩
    rw [Trim.rdropWhile_append_cons (hslash hc).1, List.filter_append,
      List.filter_eq_nil_iff.2 (fun x hx => by simp [hgone x hx]),
      List.filter_cons_of_pos (by simp [(hslash hc).2])]
    rfl

end Web
