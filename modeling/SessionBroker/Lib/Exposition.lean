/-
  The text format in which metrics are exposed: lines that are comments or
  samples, a sample being a name, labels in braces with quoted values, and a
  number.

  * `read` reads a page; it takes a value as it stands on the line;
  * `readLine_line`: what is written with its values escaped is read back,
    whatever the values are;
  * `Written` relates the lines of a page to its samples, piece by piece
    (`Written.append`), and `read_page` reads them.
-/
import Mathlib.Data.List.Basic
import Mathlib.Data.List.TakeWhile
import Mathlib.Data.Nat.Notation

namespace Exposition

structure Sample where
  name : String
  labels : List (String × String)
  value : String
deriving DecidableEq, Repr

/-! ## Values in quotes -/

def escapeChar (c : Char) : List Char :=
  if c = '\\' then ['\\', '\\'] else if c = '"' then ['\\', '"'] else if c = '\n' then ['\\', 'n'] else [c]

def escaped (value : List Char) : List Char := value.flatMap escapeChar

/-- A value up to its closing quote, and the rest. -/
def readQuoted : List Char → Option (List Char × List Char)
  | [] => none
  | c :: cs =>
    if c = '"' then some ([], cs)
    else if c = '\\' then
      match cs with
      | [] => none
      | d :: cs => (readQuoted cs).map fun r => ((if d = 'n' then '\n' else d) :: r.1, r.2)
    else (readQuoted cs).map fun r => (c :: r.1, r.2)

theorem readQuoted_cons (c : Char) (cs : List Char) : readQuoted (c :: cs) =
    if c = '"' then some ([], cs)
    else if c = '\\' then
      match cs with
      | [] => none
      | d :: cs => (readQuoted cs).map fun r => ((if d = 'n' then '\n' else d) :: r.1, r.2)
    else (readQuoted cs).map fun r => (c :: r.1, r.2) := by
  rw [readQuoted.eq_def]

theorem readQuoted_escapeChar (c : Char) (cs : List Char) :
    readQuoted (escapeChar c ++ cs) = (readQuoted cs).map fun r => (c :: r.1, r.2) := by
  unfold escapeChar
  split_ifs with hslash hquote hline
  · subst hslash
    simp [readQuoted_cons]
  · subst hquote
    simp [readQuoted_cons]
  · subst hline
    simp [readQuoted_cons]
  · simp [readQuoted_cons, hslash, hquote]

theorem readQuoted_escaped (value rest : List Char) :
    readQuoted (escaped value ++ '"' :: rest) = some (value, rest) := by
  induction value with
  | nil => simp [escaped, readQuoted_cons]
  | cons c value ih =>
    rw [escaped, List.flatMap_cons, List.append_assoc, readQuoted_escapeChar]
    rw [escaped] at ih
    rw [ih]
    rfl

theorem newline_not_mem_escaped (value : List Char) : '\n' ∉ escaped value := by
  unfold escaped
  rw [List.mem_flatMap]
  rintro ⟨c, -, hc⟩
  unfold escapeChar at hc
  split_ifs at hc with hslash hquote hline
  · simp at hc
  · simp at hc
  · simp at hc
  · exact hline (List.mem_singleton.1 hc).symm

/-! ## Lines -/

/-- A name that the format does not have to quote. -/
def Plain (name : String) : Prop :=
  ∀ c ∈ name.toList, c ≠ '{' ∧ c ≠ ' ' ∧ c ≠ '=' ∧ c ≠ '\n' ∧ c ≠ '#'

instance (name : String) : Decidable (Plain name) := List.decidableBAll _ _

/-- For a literal, whose characters need not be decoded. -/
theorem plain_ofList {name : List Char}
    (h : name.all (fun c => c ≠ '{' ∧ c ≠ ' ' ∧ c ≠ '=' ∧ c ≠ '\n' ∧ c ≠ '#') = true) : Plain (.ofList name) := by
  unfold Plain
  rw [String.toList_ofList]
  simpa using h

theorem newline_ofList {text : List Char} (h : text.all (· ≠ '\n') = true) : '\n' ∉ (String.ofList text).toList := by
  rw [String.toList_ofList]
  intro hmem
  simpa using List.all_eq_true.1 h _ hmem

/-- The labels up to the closing brace, and the rest. -/
def readLabels : ℕ → List Char → Option (List (String × String) × List Char)
  | 0, _ => none
  | fuel + 1, cs =>
    match cs.dropWhile (· ≠ '=') with
    | _ :: quote :: rest =>
      if quote = '"' then
        match readQuoted rest with
        | some (value, c :: rest) =>
          let label := (String.ofList (cs.takeWhile (· ≠ '=')), String.ofList value)
          if c = '}' then some ([label], rest)
          else if c = ',' then (readLabels fuel rest).map fun r => (label :: r.1, r.2)
          else none
        | _ => none
      else none
    | _ => none

def readLine (line : List Char) : Option Sample :=
  let inName := fun c : Char => c ≠ '{' ∧ c ≠ ' '
  let name := String.ofList (line.takeWhile inName)
  match line.dropWhile inName with
  | [] => none
  | c :: rest =>
    if c = ' ' then some ⟨name, [], .ofList rest⟩
    else
      match readLabels rest.length rest with
      | some (labels, c :: value) => if c = ' ' then some ⟨name, labels, .ofList value⟩ else none
      | _ => none

/-- A page: empty lines and comments are skipped. -/
def read (page : String) : Option (List Sample) :=
  ((page.toList.splitOn '\n').filter fun line => line ≠ [] ∧ line.head? ≠ some '#').mapM readLine

def labelText (label : String × String) : List Char :=
  label.1.toList ++ '=' :: '"' :: (escaped label.2.toList ++ ['"'])

def labelsText (labels : List (String × String)) : List Char := [','].intercalate (labels.map labelText)

def line (s : Sample) : List Char :=
  s.name.toList ++ ((if s.labels = [] then [] else '{' :: (labelsText s.labels ++ ['}'])) ++ ' ' :: s.value.toList)

theorem takeWhile_name {p : Char → Bool} {name : List Char} (hname : ∀ c ∈ name, p c = true) (rest : List Char)
    (hrest : ∀ c, rest.head? = some c → p c = false) :
    (name ++ rest).takeWhile p = name ∧ (name ++ rest).dropWhile p = rest := by
  rw [List.takeWhile_append_of_pos hname, List.dropWhile_append_of_pos hname]
  cases rest with
  | nil => simp
  | cons c rest => simp [hrest c rfl]

theorem readLabels_one {fuel : ℕ} {label : String × String} (h : Plain label.1) (c : Char) (rest : List Char) :
    readLabels (fuel + 1) (labelText label ++ c :: rest) =
      if c = '}' then some ([label], rest)
      else if c = ',' then (readLabels fuel rest).map fun r => (label :: r.1, r.2)
      else none := by
  obtain ⟨name, value⟩ := label
  have hname : ∀ c ∈ name.toList, decide (c ≠ '=') = true := fun c hc => decide_eq_true (h c hc).2.2.1
  have hsplit := takeWhile_name hname ('=' :: '"' :: (escaped value.toList ++ '"' :: c :: rest)) (by simp)
  have htext : labelText (name, value) ++ c :: rest =
      name.toList ++ '=' :: '"' :: (escaped value.toList ++ '"' :: c :: rest) := by
    simp [labelText]
  rw [htext, readLabels, hsplit.1, hsplit.2]
  simp only [if_true, readQuoted_escaped, String.ofList_toList]

theorem labelsText_cons (label label' : String × String) (labels : List (String × String)) :
    labelsText (label :: label' :: labels) = labelText label ++ ',' :: labelsText (label' :: labels) := by
  simp [labelsText]

theorem readLabels_text {labels : List (String × String)} (h : ∀ label ∈ labels, Plain label.1)
    (hne : labels ≠ []) {fuel : ℕ} (hfuel : labels.length ≤ fuel) (rest : List Char) :
    readLabels fuel (labelsText labels ++ '}' :: rest) = some (labels, rest) := by
  induction labels generalizing fuel with
  | nil => exact absurd rfl hne
  | cons label labels ih =>
    obtain ⟨fuel, rfl⟩ := Nat.exists_eq_add_one.2 (Nat.lt_of_lt_of_le (by simp) hfuel)
    have hlabel := h label (by simp)
    cases labels with
    | nil => rw [labelsText, List.map_singleton, List.intercalate_singleton, readLabels_one hlabel, if_pos rfl]
    | cons label' labels =>
      rw [labelsText_cons, List.append_assoc, List.cons_append, readLabels_one hlabel, if_neg (by decide), if_pos rfl,
        ih (fun l hl => h l (List.mem_cons_of_mem _ hl)) (by simp) (by simpa using hfuel)]
      rfl

theorem length_le_labelsText (labels : List (String × String)) : labels.length ≤ (labelsText labels).length := by
  induction labels with
  | nil => exact Nat.zero_le _
  | cons label labels ih =>
    cases labels with
    | nil =>
      simp only [labelsText, labelText, List.map_singleton, List.intercalate_singleton, List.length_append,
        List.length_cons]
      omega
    | cons label' labels =>
      rw [labelsText_cons, List.length_append]
      simp only [List.length_cons] at ih ⊢
      omega

/-- **A sample is read back**, whatever the values of its labels. -/
theorem readLine_line {s : Sample} (hname : Plain s.name) (hlabels : ∀ label ∈ s.labels, Plain label.1) :
    readLine (line s) = some s := by
  obtain ⟨name, labels, value⟩ := s
  have hplain : ∀ c ∈ name.toList, decide (c ≠ '{' ∧ c ≠ ' ') = true :=
    fun c hc => decide_eq_true ⟨(hname c hc).1, (hname c hc).2.1⟩
  unfold readLine line
  by_cases hne : labels = []
  · subst hne
    have hsplit := takeWhile_name hplain (' ' :: value.toList) (by simp)
    simp only [if_true, List.nil_append, hsplit.1, hsplit.2, String.ofList_toList]
  · obtain ⟨rest, hrest⟩ : ∃ rest, rest = labelsText labels ++ '}' :: ' ' :: value.toList := ⟨_, rfl⟩
    have hsplit := takeWhile_name hplain ('{' :: rest) (by simp)
    have hlength : labels.length ≤ rest.length := by
      rw [hrest, List.length_append]
      exact (length_le_labelsText labels).trans (Nat.le_add_right ..)
    have hread := readLabels_text hlabels hne hlength (' ' :: value.toList)
    have htext : name.toList ++ (('{' :: (labelsText labels ++ ['}'])) ++ ' ' :: value.toList) =
        name.toList ++ '{' :: rest := by
      simp [hrest]
    rw [← hrest] at hread
    rw [if_neg hne, htext]
    simp only [hsplit.1, hsplit.2, hread, if_true, String.ofList_toList]
    simp

/-! ## Pages -/

/-- A sample that the format can hold. -/
structure Sample.Good (s : Sample) : Prop where
  name : Plain s.name
  ne_nil : s.name ≠ ""
  labels : ∀ label ∈ s.labels, Plain label.1
  value : '\n' ∉ s.value.toList

theorem newline_not_mem_labelsText {labels : List (String × String)} (h : ∀ label ∈ labels, Plain label.1) :
    '\n' ∉ labelsText labels := by
  have hone : ∀ label ∈ labels, '\n' ∉ labelText label := by
    intro label hlabel hmem
    simp only [labelText, List.mem_append, List.mem_cons, List.not_mem_nil, or_false] at hmem
    rcases hmem with hname | heq | hquote | hvalue | hquote
    · exact (h label hlabel _ hname).2.2.2.1 rfl
    · simp at heq
    · simp at hquote
    · exact newline_not_mem_escaped _ hvalue
    · simp at hquote
  induction labels with
  | nil => simp [labelsText]
  | cons label labels ih =>
    cases labels with
    | nil => simpa [labelsText] using hone label (by simp)
    | cons label' labels =>
      have hrest := ih (fun l hl => h l (List.mem_cons_of_mem _ hl)) fun l hl => hone l (List.mem_cons_of_mem _ hl)
      rw [labelsText_cons, List.mem_append, List.mem_cons]
      rintro (hmem | heq | hmem)
      · exact hone label (by simp) hmem
      · simp at heq
      · exact hrest hmem

theorem newline_not_mem_line {s : Sample} (h : s.Good) : '\n' ∉ line s := by
  have hlabels := newline_not_mem_labelsText h.labels
  have hname : '\n' ∉ s.name.toList := fun hmem => (h.name _ hmem).2.2.2.1 rfl
  have hvalue := h.value
  unfold line
  split_ifs
  · simp [hname, hvalue]
  · simp [hname, hlabels, hvalue]

/-- The lines are comments, and these samples in order. -/
inductive Written : List String → List Sample → Prop
  | nil : Written [] []
  | comment {lines : List String} {samples : List Sample} {text : String} (hstart : text.toList.head? = some '#')
      (hline : '\n' ∉ text.toList) (h : Written lines samples) : Written (text :: lines) samples
  | sample {lines : List String} {samples : List Sample} {text : String} {s : Sample} (hs : s.Good)
      (htext : text.toList = line s) (h : Written lines samples) : Written (text :: lines) (s :: samples)

theorem Written.append {lines lines' : List String} {samples samples' : List Sample} (h : Written lines samples)
    (h' : Written lines' samples') : Written (lines ++ lines') (samples ++ samples') := by
  induction h with
  | nil => exact h'
  | comment hstart hline _ ih => exact .comment hstart hline ih
  | sample hs htext _ ih => exact .sample hs htext ih

/-- Each row written as the lines of its own samples. -/
theorem Written.flatMap {α : Type} {rows : List α} {lines : α → List String} {samples : α → List Sample}
    (h : ∀ row ∈ rows, Written (lines row) (samples row)) : Written (rows.flatMap lines) (rows.flatMap samples) := by
  induction rows with
  | nil => exact .nil
  | cons row rows ih =>
    rw [List.flatMap_cons, List.flatMap_cons]
    exact (h row (by simp)).append (ih fun r hr => h r (List.mem_cons_of_mem _ hr))

/-- Each row written as one sample. -/
theorem Written.map {α : Type} {rows : List α} {text : α → String} {sample : α → Sample}
    (h : ∀ row ∈ rows, Written [text row] [sample row]) : Written (rows.map text) (rows.map sample) := by
  rw [List.map_eq_flatMap, List.map_eq_flatMap]
  exact .flatMap h

/-- What a page has under a name, where its blocks share none. -/
theorem filter_blocks {blocks : List (List String × List Sample)} (hnodup : (blocks.flatMap (·.1)).Nodup)
    (hown : ∀ b ∈ blocks, ∀ s ∈ b.2, s.name ∈ b.1) {name : String} {samples : List Sample}
    (hb : ([name], samples) ∈ blocks) : (blocks.flatMap (·.2)).filter (·.name = name) = samples := by
  induction blocks with
  | nil => cases hb
  | cons block blocks ih =>
    rw [List.flatMap_cons, List.nodup_append] at hnodup
    obtain ⟨-, hrest, hapart⟩ := hnodup
    have hown' : ∀ b ∈ blocks, ∀ s ∈ b.2, s.name ∈ b.1 := fun b hb => hown b (List.mem_cons_of_mem _ hb)
    rw [List.flatMap_cons, List.filter_append]
    rcases List.mem_cons.1 hb with rfl | hb
    · have hself : samples.filter (·.name = name) = samples := by
        refine List.filter_eq_self.2 fun s hs => decide_eq_true ?_
        exact List.mem_singleton.1 (hown ([name], samples) (by simp) s hs)
      have hothers : (blocks.flatMap (·.2)).filter (·.name = name) = [] := by
        refine List.filter_eq_nil_iff.2 fun s hs heq => ?_
        obtain ⟨b, hb, hs⟩ := List.mem_flatMap.1 hs
        exact hapart name (by simp) s.name (List.mem_flatMap.2 ⟨b, hb, hown' b hb s hs⟩) (of_decide_eq_true heq).symm
      rw [hself, hothers, List.append_nil]
    · have hfirst : block.2.filter (·.name = name) = [] := by
        refine List.filter_eq_nil_iff.2 fun s hs heq => ?_
        have hmem : name ∈ blocks.flatMap (·.1) := List.mem_flatMap.2 ⟨_, hb, by simp⟩
        exact hapart s.name (hown block (by simp) s hs) name hmem (of_decide_eq_true heq)
      rw [hfirst, List.nil_append, ih hrest hown' hb]

/-- Lines, each with its end. -/
def page (lines : List String) : String := .join (lines.map (· ++ "\n"))

theorem page_cons (text : String) (lines : List String) :
    (page (text :: lines)).toList = text.toList ++ '\n' :: (page lines).toList := by
  simp [page]

theorem line_ne_nil {s : Sample} : line s ≠ [] := by
  unfold line
  simp

theorem head_line {s : Sample} (h : s.Good) : (line s).head? ≠ some '#' := by
  intro hhead
  have hname : s.name.toList ≠ [] := by simpa using h.ne_nil
  rw [line, List.head?_append_of_ne_nil _ hname] at hhead
  exact (h.name _ (List.mem_of_mem_head? hhead)).2.2.2.2 rfl

/-- **A page is read back**: its samples, in order, and no others. -/
theorem read_page {lines : List String} {samples : List Sample} (h : Written lines samples) :
    read (page lines) = some samples := by
  unfold read
  induction h with
  | nil => rfl
  | @comment lines samples text hstart hline _ ih =>
    rw [page_cons, List.splitOn_append_cons_self, List.splitOn_eq_singleton hline, List.singleton_append,
      List.filter_cons_of_neg (by simp [hstart])]
    exact ih
  | @sample lines samples text s hs htext _ ih =>
    have hline : '\n' ∉ text.toList := by
      rw [htext]
      exact newline_not_mem_line hs
    rw [page_cons, List.splitOn_append_cons_self, List.splitOn_eq_singleton hline, List.singleton_append, htext,
      List.filter_cons_of_pos (by simp [line_ne_nil, head_line hs]), List.mapM_cons, ih,
      readLine_line hs.name hs.labels]
    rfl

end Exposition
