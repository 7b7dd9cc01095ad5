/-
  The config file (`parse_simple_toml`, `config.rs`).

  * `TomlLine` is the grammar the parser stands for: blank lines, comments,
    table headers, and `key = value` with a value in quotes or a bare word,
    blanks around each part and a comment at the end;
  * `TomlEntry.read`: what the parser makes of the value, which is the value
    unless a comment follows a closing quote;
  * `parse_simple_toml_iff`: which files are read as they stand.
-/
import SessionBroker.Keyfile

namespace SessionBroker

open Crypto

/-! ## The parser -/

/-- `str::strip_suffix`. -/
def stripSuffix (last s : String) : Option String :=
  if last.toList <:+ s.toList then
    some (.ofList (s.toList.take (s.toList.length - last.toList.length)))
  else none

/-- A value, by its first character. -/
def tomlValue (value : String) : String :=
  match stripPrefix "\"" value with
  | some quoted => (stripSuffix "\"" quoted).getD quoted
  | none => trim ((split '#' value).head?.getD value)

/-- One turn of the loop; the map is what its lookups find. -/
def parseTomlLine (out : String → Option String) (line : String) : String → Option String :=
  let line := trim line
  if line = "" ∨ line.toList.head? = some '#' ∨ line.toList.head? = some '[' then out
  else
    match splitOnce '=' line with
    | none => out
    | some (key, value) => Function.update out (trim key) (some (tomlValue (trim value)))

/-- `parse_simple_toml`. -/
def parseSimpleToml (input : String) : String → Option String :=
  (lines input).foldl parseTomlLine fun _ => none

theorem stripSuffix_eq_some {last s rest : String} :
    stripSuffix last s = some rest ↔ s.toList = rest.toList ++ last.toList := by
  unfold stripSuffix
  constructor
  · intro h
    split_ifs at h with hp
    obtain ⟨l, hl⟩ := hp
    rw [Option.some_inj] at h
    rw [← h, String.toList_ofList, ← hl]
    simp
  · intro h
    rw [if_pos ⟨_, h.symm⟩, h]
    simp

/-! ## The grammar -/

/-- Blanks within a line. -/
abbrev Blanks := { l : List Char // ∀ c ∈ l, isWhiteSpace c = true ∧ c ≠ '\n' }

/-- Anything within a line. -/
abbrev LineText := { l : List Char // '\n' ∉ l }

/-- A key; among others the bare keys, which are letters, digits, dashes and
    underscores. -/
abbrev TomlKey := { l : List Char // l ≠ [] ∧ '\n' ∉ l ∧ '=' ∉ l ∧ Trim.Trimmed isWhiteSpace l ∧
  l.head? ≠ some '#' ∧ l.head? ≠ some '[' }

inductive TomlValue where
  | quoted (text : { l : List Char // ∀ c ∈ l, c ≠ '"' ∧ c ≠ '\\' ∧ c ≠ '\n' })
  | bare (word : { l : List Char // l ≠ [] ∧ (∀ c ∈ l, isWhiteSpace c = false ∧ c ≠ '#') ∧
      l.head? ≠ some '"' })

/-- `key = value`, with blanks before each part and behind the value, and a
    comment. -/
structure TomlEntry where
  indent : Blanks
  key : TomlKey
  beforeEq : Blanks
  afterEq : Blanks
  value : TomlValue
  trail : Blanks
  comment : Option LineText

inductive TomlLine where
  | blank (blanks : Blanks)
  | comment (indent : Blanks) (text : LineText)
  | header (indent : Blanks) (text : LineText)
  | entry (entry : TomlEntry)

namespace TomlValue

/-- The value itself. -/
def text : TomlValue → List Char
  | quoted text => text.1
  | bare word => word.1

/-- The value as it is written. -/
def chars : TomlValue → List Char
  | quoted text => '"' :: (text.1 ++ ['"'])
  | bare word => word.1

end TomlValue

namespace TomlEntry

/-- What stands behind the value. -/
def tail (e : TomlEntry) : List Char := e.trail.1 ++ e.comment.elim [] fun text => '#' :: text.1

def chars (e : TomlEntry) : List Char :=
  e.indent.1 ++ e.key.1 ++ e.beforeEq.1 ++ '=' :: (e.afterEq.1 ++ e.value.chars ++ e.tail)

end TomlEntry

def TomlLine.chars : TomlLine → List Char
  | blank blanks => blanks.1
  | comment indent text => indent.1 ++ '#' :: text.1
  | header indent text => indent.1 ++ '[' :: text.1
  | entry e => e.chars

/-- The text of a file.  A blank line at the end is a line feed at the end. -/
def tomlFile (ls : List TomlLine) : String := .ofList (['\n'].intercalate (ls.map TomlLine.chars))

def TomlLine.asEntry : TomlLine → Option TomlEntry
  | entry e => some e
  | _ => none

/-- The last entry of a key. -/
def lastEntry (ls : List TomlLine) (key : String) : Option TomlEntry :=
  (ls.filterMap TomlLine.asEntry).reverse.find? fun e => String.ofList e.key.1 = key

/-! ## Blanks -/

theorem trim_ofList (l : List Char) : trim (.ofList l) = .ofList (Trim.trim isWhiteSpace l) := by
  rw [trim, String.toList_ofList]
  rfl

theorem trim_dropCr (l : List Char) : Trim.trim isWhiteSpace (dropCr l) = Trim.trim isWhiteSpace l := by
  unfold dropCr
  split_ifs with hlast
  · obtain ⟨start, rfl⟩ := List.getLast?_eq_some_iff.1 hlast
    rw [List.dropLast_concat, Trim.trim_append_blanks]
    simp [isWhiteSpace]
  · rfl

/-! ## Entries -/

theorem head?_splitOn (c : Char) (l : List Char) :
    (l.splitOn c).head? = some (l.takeWhile (· ≠ c)) := by
  induction l with
  | nil => rfl
  | cons x l ih =>
    rw [List.splitOn_cons_eq_if_modifyHead]
    by_cases hx : x = c
    · rw [if_pos (by simp [hx]), List.takeWhile_cons_of_neg (by simp [hx])]
      rfl
    · rw [if_neg (by simp [hx]), List.takeWhile_cons_of_pos (by simp [hx])]
      cases hsplit : l.splitOn c with
      | nil => exact absurd hsplit (List.splitOn_ne_nil c l)
      | cons first rest =>
        rw [hsplit, List.head?_cons, Option.some_inj] at ih
        rw [List.modifyHead_cons, List.head?_cons, ih]

/-- A bare word ends at a hash, or at the end. -/
theorem tomlValue_bare {word trail rest : List Char} (hne : word ≠ [])
    (hchars : ∀ c ∈ word, isWhiteSpace c = false ∧ c ≠ '#') (hquote : word.head? ≠ some '"')
    (htrail : ∀ c ∈ trail, isWhiteSpace c = true) (hrest : ∀ c, rest.head? = some c → c = '#') :
    tomlValue (.ofList (word ++ trail ++ rest)) = .ofList word := by
  have hstrip : stripPrefix "\"" (.ofList (word ++ trail ++ rest)) = none := by
    refine if_neg fun hprefix => hquote ?_
    obtain ⟨more, hmore⟩ := hprefix
    simp only [String.toList_ofList, List.append_assoc] at hmore
    have hhead : (word ++ (trail ++ rest)).head? = word.head? := List.head?_append_of_ne_nil word hne
    rw [← hhead, ← hmore]
    rfl
  have htake : (word ++ trail ++ rest).takeWhile (· ≠ '#') = word ++ trail := by
    refine Trim.takeWhile_stop (fun c hc => decide_eq_true ?_) fun c hc => by simp [hrest c hc]
    rcases List.mem_append.1 hc with hc | hc
    · exact (hchars c hc).2
    · rintro rfl
      exact absurd (htrail _ hc) (by decide)
  have htrimmed : Trim.Trimmed isWhiteSpace word := .of_forall fun c hc => (hchars c hc).1
  have hbetween := Trim.trim_between (a := []) nofun htrimmed htrail
  unfold tomlValue
  rw [hstrip]
  dsimp only
  rw [split, List.head?_map, String.toList_ofList, head?_splitOn, htake, Option.map_some,
    Option.getD_some, trim_ofList, ← List.nil_append word, hbetween, List.nil_append]

namespace TomlValue

theorem chars_trimmed (v : TomlValue) : Trim.Trimmed isWhiteSpace v.chars ∧ v.chars ≠ [] := by
  cases v with
  | quoted text =>
    have hquote : isWhiteSpace '"' = false := by decide
    refine ⟨⟨fun c hc => ?_, fun c hc => ?_⟩, List.cons_ne_nil _ _⟩
    · cases hc
      exact hquote
    · rw [chars, ← List.cons_append, List.getLast?_concat, Option.some_inj] at hc
      exact hc ▸ hquote
  | bare word =>
    obtain ⟨word, hne, hchars, -⟩ := word
    exact ⟨.of_forall fun c hc => (hchars c hc).1, hne⟩

end TomlValue

namespace TomlEntry

/-- What is left behind the value of a trimmed line. -/
def kept (e : TomlEntry) : List Char :=
  e.comment.elim [] fun text => e.trail.1 ++ '#' :: text.1.rdropWhile isWhiteSpace

/-- The value as the parser reads it. -/
def read (e : TomlEntry) : String :=
  match e.value with
  | .quoted text =>
    let quoted := String.ofList (text.1 ++ ['"'] ++ e.kept)
    (stripSuffix "\"" quoted).getD quoted
  | .bare word => .ofList word.1

theorem kept_trimmed (e : TomlEntry) : Trim.Trimmed isWhiteSpace (e.value.chars ++ e.kept) := by
  obtain ⟨htrim, hne⟩ := e.value.chars_trimmed
  refine ⟨fun c hc => ?_, fun c hc => ?_⟩
  · rw [List.head?_append_of_ne_nil _ hne] at hc
    exact htrim.1 c hc
  · unfold kept at hc
    cases hcomment : e.comment with
    | none =>
      rw [hcomment, Option.elim_none, List.append_nil] at hc
      exact htrim.2 c hc
    | some text =>
      rw [hcomment, Option.elim_some, ← List.append_assoc,
        List.getLast?_append_of_ne_nil _ (List.cons_ne_nil _ _)] at hc
      exact Trim.getLast?_rdropWhile_cons (by decide) _ c hc

/-- The line without its blanks. -/
theorem trim_chars (e : TomlEntry) : Trim.trim isWhiteSpace e.chars =
    e.key.1 ++ e.beforeEq.1 ++ '=' :: (e.afterEq.1 ++ e.value.chars ++ e.kept) := by
  have hkey : (e.indent.1 ++ e.key.1 ++ e.beforeEq.1).dropWhile isWhiteSpace =
      e.key.1 ++ e.beforeEq.1 := by
    rw [List.append_assoc, List.dropWhile_append_of_pos fun c hc => (e.indent.2 c hc).1]
    obtain ⟨key, hne, -, -, htrim, -⟩ := e.key
    cases key with
    | nil => exact absurd rfl hne
    | cons c rest => exact List.dropWhile_cons_of_neg (by simp [htrim.1 c rfl])
  have hvalue : (e.afterEq.1 ++ e.value.chars ++ e.tail).rdropWhile isWhiteSpace =
      e.afterEq.1 ++ e.value.chars ++ e.kept := by
    unfold tail kept
    cases e.comment with
    | none =>
      obtain ⟨htrim, hne⟩ := e.value.chars_trimmed
      simp only [Option.elim_none, List.append_nil]
      rw [Trim.rdropWhile_append_of_pos fun c hc => (e.trail.2 c hc).1, List.rdropWhile_eq_self_iff]
      intro hne'
      rw [List.getLast_append_of_ne_nil _ hne]
      simp [htrim.2 _ (List.getLast?_eq_getLast_of_ne_nil hne)]
    | some text =>
      simp only [Option.elim_some]
      rw [← List.append_assoc, Trim.rdropWhile_append_cons (by decide), List.append_assoc]
  rw [chars, Trim.trim, Trim.dropWhile_append_cons (by decide), Trim.rdropWhile_append_cons (by decide),
    hkey, hvalue]

theorem read_eq (e : TomlEntry) : tomlValue (.ofList (e.value.chars ++ e.kept)) = e.read := by
  unfold read
  cases e.value with
  | quoted text =>
    have hstrip : stripPrefix "\"" (.ofList ((TomlValue.quoted text).chars ++ e.kept)) =
        some (.ofList (text.1 ++ ['"'] ++ e.kept)) := by
      rw [stripPrefix_eq_some, TomlValue.chars]
      simp
    rw [tomlValue, hstrip]
  | bare word =>
    obtain ⟨word, hne, hchars, hquote⟩ := word
    show tomlValue (.ofList (word ++ e.kept)) = .ofList word
    unfold kept
    cases e.comment with
    | none =>
      have hread : tomlValue (.ofList (word ++ [] ++ [])) = .ofList word :=
        tomlValue_bare hne hchars hquote nofun nofun
      rw [List.append_nil] at hread
      exact hread
    | some text =>
      rw [Option.elim_some, ← List.append_assoc]
      refine tomlValue_bare hne hchars hquote (fun c hc => (e.trail.2 c hc).1) fun c hc => ?_
      cases hc
      rfl

/-- **What the parser makes of an entry.** -/
theorem parse (e : TomlEntry) (out : String → Option String) :
    parseTomlLine out (.ofList e.chars) =
      Function.update out (.ofList e.key.1) (some e.read) := by
  obtain ⟨hne, -, heq, htrim, hhash, hbracket⟩ := e.key.2
  have hline : trim (.ofList e.chars) =
      .ofList (e.key.1 ++ e.beforeEq.1 ++ '=' :: (e.afterEq.1 ++ e.value.chars ++ e.kept)) := by
    rw [trim_ofList, trim_chars]
  have hstart : ¬(trim (.ofList e.chars) = "" ∨ (trim (.ofList e.chars)).toList.head? = some '#' ∨
      (trim (.ofList e.chars)).toList.head? = some '[') := by
    rw [hline, String.toList_ofList, List.append_assoc, List.head?_append_of_ne_nil _ hne]
    rintro (hnil | h | h)
    · rw [← String.toList_inj, String.toList_ofList] at hnil
      exact hne (List.append_eq_nil_iff.1 hnil).1
    · exact hhash h
    · exact hbracket h
  have hsplit : splitOnce '=' (trim (.ofList e.chars)) =
      some (.ofList (e.key.1 ++ e.beforeEq.1), .ofList (e.afterEq.1 ++ e.value.chars ++ e.kept)) := by
    rw [hline, splitOnce_eq_some]
    simp only [String.toList_ofList, true_and, List.mem_append, not_or]
    refine ⟨heq, fun hmem => ?_⟩
    exact absurd (e.beforeEq.2 _ hmem).1 (by decide)
  have hkey : trim (.ofList (e.key.1 ++ e.beforeEq.1)) = .ofList e.key.1 := by
    have hbetween := Trim.trim_between (a := []) nofun htrim fun c hc => (e.beforeEq.2 c hc).1
    rw [List.nil_append] at hbetween
    rw [trim_ofList, hbetween]
  have hvalue : trim (.ofList (e.afterEq.1 ++ e.value.chars ++ e.kept)) =
      .ofList (e.value.chars ++ e.kept) := by
    have hbetween := Trim.trim_between (b := []) (fun c hc => (e.afterEq.2 c hc).1) e.kept_trimmed nofun
    rw [List.append_nil, ← List.append_assoc] at hbetween
    rw [trim_ofList, hbetween]
  unfold parseTomlLine
  dsimp only
  rw [if_neg hstart, hsplit]
  dsimp only
  rw [hkey, hvalue, read_eq]

/-- A value in quotes with a comment behind it. -/
def QuotedThenComment (e : TomlEntry) : Prop := (∃ text, e.value = .quoted text) ∧ e.comment ≠ none

theorem read_eq_iff (e : TomlEntry) : e.read = .ofList e.value.text ↔ ¬e.QuotedThenComment := by
  unfold read QuotedThenComment kept
  cases e.value with
  | bare word => simp [TomlValue.text]
  | quoted text =>
    cases e.comment with
    | none =>
      refine iff_of_true ?_ (by simp)
      have hstrip : stripSuffix "\"" (.ofList (text.1 ++ ['"'] ++ [])) = some (.ofList text.1) :=
        stripSuffix_eq_some.2 (by simp)
      rw [Option.elim_none]
      dsimp only
      rw [hstrip]
      rfl
    | some comment =>
      refine iff_of_false ?_ (by simp)
      rw [Option.elim_some]
      dsimp only
      -- either way something is left of the closing quote and the comment
      intro h
      cases hstrip : stripSuffix "\"" (.ofList (text.1 ++ ['"'] ++
          (e.trail.1 ++ '#' :: comment.1.rdropWhile isWhiteSpace))) with
      | none =>
        rw [hstrip, Option.getD_none, String.ofList_inj] at h
        have hlen := congrArg List.length h
        simp [TomlValue.text] at hlen
      | some rest =>
        rw [hstrip, Option.getD_some] at h
        rw [stripSuffix_eq_some, h] at hstrip
        have hlen := congrArg List.length hstrip
        simp [TomlValue.text] at hlen

end TomlEntry

/-- **What the parser makes of a line.** -/
theorem parseTomlLine_chars (out : String → Option String) (l : TomlLine) :
    parseTomlLine out (.ofList l.chars) = l.asEntry.elim out fun e =>
      Function.update out (.ofList e.key.1) (some e.read) := by
  have hskip : ∀ line : String, (trim line = "" ∨ (trim line).toList.head? = some '#' ∨
      (trim line).toList.head? = some '[') → parseTomlLine out line = out := fun line h => if_pos h
  cases l with
  | blank blanks =>
    refine hskip _ (Or.inl ?_)
    have hnil := Trim.trim_append_blanks (fun c hc => (blanks.2 c hc).1) []
    rw [List.nil_append] at hnil
    rw [trim_ofList]
    exact congrArg String.ofList hnil
  | comment indent text =>
    refine hskip _ (Or.inr (Or.inl ?_))
    rw [trim_ofList, TomlLine.chars, Trim.trim_cons (fun c hc => (indent.2 c hc).1) (by decide),
      String.toList_ofList]
    rfl
  | header indent text =>
    refine hskip _ (Or.inr (Or.inr ?_))
    rw [trim_ofList, TomlLine.chars, Trim.trim_cons (fun c hc => (indent.2 c hc).1) (by decide),
      String.toList_ofList]
    rfl
  | entry e => exact e.parse out

/-! ## Files -/

theorem TomlValue.newline_not_mem (v : TomlValue) : '\n' ∉ v.chars := by
  cases v with
  | quoted text =>
    simp only [chars, List.mem_cons, List.mem_append, List.not_mem_nil, or_false, not_or]
    exact ⟨by decide, fun h => (text.2 _ h).2.2 rfl, by decide⟩
  | bare word =>
    exact fun h => absurd (word.2.2.1 _ h).1 (by decide)

theorem TomlEntry.newline_not_mem (e : TomlEntry) : '\n' ∉ e.chars := by
  have hblanks : ∀ b : Blanks, '\n' ∉ b.1 := fun b h => (b.2 _ h).2 rfl
  have htail : '\n' ∉ e.tail := by
    unfold tail
    cases e.comment with
    | none => simpa using hblanks e.trail
    | some text =>
      simp only [Option.elim_some, List.mem_append, List.mem_cons, not_or]
      exact ⟨hblanks _, by decide, text.2⟩
  simp only [chars, List.mem_append, List.mem_cons, not_or]
  exact ⟨⟨⟨hblanks _, e.key.2.2.1⟩, hblanks _⟩, by decide, ⟨hblanks _, e.value.newline_not_mem⟩, htail⟩

theorem TomlLine.newline_not_mem (l : TomlLine) : '\n' ∉ l.chars := by
  cases l with
  | blank blanks => exact fun h => (blanks.2 _ h).2 rfl
  | comment indent text | header indent text =>
    simp only [chars, List.mem_append, List.mem_cons, not_or]
    exact ⟨fun h => (indent.2 _ h).2 rfl, by decide, text.2⟩
  | entry e => exact e.newline_not_mem

theorem linesGo_last {l : List Char} (h : '\n' ∉ l) (start : List Char) :
    linesGo start l = if start ++ l = [] then [] else [start ++ l] := by
  induction l generalizing start with
  | nil => simp [linesGo]
  | cons c l ih =>
    rw [List.mem_cons, not_or] at h
    rw [linesGo, if_neg (Ne.symm h.1), ih h.2]
    simp

/-- Lines that are parsed alike with and without their carriage return, and an
    empty one without effect, may be read off the line feeds. -/
theorem foldl_linesGo {σ : Type} {f : σ → List Char → σ} (hcr : ∀ s l, f s (dropCr l) = f s l)
    (hnil : ∀ s, f s [] = s) {raws : List (List Char)} (h : ∀ l ∈ raws, '\n' ∉ l) (s : σ) :
    (linesGo [] (['\n'].intercalate raws)).foldl f s = raws.foldl f s := by
  induction raws generalizing s with
  | nil => rfl
  | cons l raws ih =>
    cases raws with
    | nil =>
      rw [List.intercalate_singleton, linesGo_last (h l (.head _)), List.nil_append]
      split_ifs with hl
      · rw [hl]
        exact (hnil s).symm
      · rfl
    | cons l' raws =>
      have hrest := ih (fun x hx => h x (.tail _ hx)) (f s l)
      rw [List.intercalate_cons_cons, List.append_assoc, List.singleton_append,
        linesGo_append (h l (.head _)), List.nil_append, List.foldl_cons, hcr, hrest]
      rfl

/-- The loop goes over the lines of the grammar. -/
theorem parseSimpleToml_lines (ls : List TomlLine) : parseSimpleToml (tomlFile ls) =
    ls.foldl (fun out l => parseTomlLine out (.ofList l.chars)) fun _ => none := by
  have hcr : ∀ (out : String → Option String) (l : List Char),
      parseTomlLine out (.ofList (dropCr l)) = parseTomlLine out (.ofList l) := by
    intro out l
    simp only [parseTomlLine, trim_ofList, trim_dropCr]
  have hnil : ∀ out : String → Option String, parseTomlLine out (.ofList []) = out :=
    fun out => parseTomlLine_chars out (.blank ⟨[], nofun⟩)
  have hraws : ∀ raw ∈ ls.map TomlLine.chars, '\n' ∉ raw := by
    intro raw hraw
    obtain ⟨l, -, rfl⟩ := List.mem_map.1 hraw
    exact l.newline_not_mem
  have hgo := foldl_linesGo (f := fun out l => parseTomlLine out (.ofList l)) hcr hnil hraws
    fun _ => none
  rw [List.foldl_map] at hgo
  rw [parseSimpleToml, lines, tomlFile, String.toList_ofList, List.foldl_map]
  exact hgo

theorem parseSimpleToml_file (ls : List TomlLine) (key : String) :
    parseSimpleToml (tomlFile ls) key = (lastEntry ls key).map TomlEntry.read := by
  rw [parseSimpleToml_lines]
  induction ls using List.reverseRecOn with
  | nil => rfl
  | append_singleton ls l ih =>
    rw [List.foldl_concat, parseTomlLine_chars, lastEntry, List.filterMap_append, List.reverse_append]
    cases he : l.asEntry with
    | none =>
      rw [Option.elim_none, List.filterMap_cons_none he, List.filterMap_nil, List.reverse_nil,
        List.nil_append]
      exact ih
    | some e =>
      rw [Option.elim_some, List.filterMap_cons_some he, List.filterMap_nil, List.reverse_singleton,
        List.singleton_append]
      by_cases hk : String.ofList e.key.1 = key
      · rw [← hk, Function.update_self, List.find?_cons_of_pos (by simp), Option.map_some]
      · rw [Function.update_of_ne (Ne.symm hk), List.find?_cons_of_neg (by simpa using hk)]
        exact ih

/-- **A file is read as it stands** exactly if the last entry of every key has no
    comment behind a value in quotes. -/
theorem parse_simple_toml_iff (ls : List TomlLine) :
    (∀ key, parseSimpleToml (tomlFile ls) key =
      (lastEntry ls key).map fun e => String.ofList e.value.text) ↔
    ∀ key e, lastEntry ls key = some e → ¬e.QuotedThenComment := by
  constructor
  · intro h key e he
    have hkey := h key
    rw [parseSimpleToml_file, he, Option.map_some, Option.map_some, Option.some_inj] at hkey
    exact e.read_eq_iff.1 hkey
  · intro h key
    rw [parseSimpleToml_file]
    cases he : lastEntry ls key with
    | none => rfl
    | some e => rw [Option.map_some, Option.map_some, e.read_eq_iff.2 (h key e he)]

/-- `a = "x" # c`. -/
def TomlEntry.commented : TomlEntry where
  indent := ⟨[], nofun⟩
  key := ⟨['a'], by simp [Trim.Trimmed, isWhiteSpace]⟩
  beforeEq := ⟨[' '], by simp [isWhiteSpace]⟩
  afterEq := ⟨[' '], by simp [isWhiteSpace]⟩
  value := .quoted ⟨['x'], by simp⟩
  trail := ⟨[' '], by simp [isWhiteSpace]⟩
  comment := some ⟨[' ', 'c'], by decide⟩

/-- The value in quotes takes the comment in. -/
theorem quoted_value_keeps_comment : ∃ ls key,
    parseSimpleToml (tomlFile ls) key = some "x\" # c" ∧
      (lastEntry ls key).map (fun e => String.ofList e.value.text) = some "x" := by
  refine ⟨[.entry .commented], "a", ?_, rfl⟩
  rw [parseSimpleToml_file]
  show some TomlEntry.commented.read = _
  decide +kernel

end SessionBroker
