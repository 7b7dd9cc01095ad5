/-
  The keyfile (`store/crypto.rs`): its text, and its rotation.

  * A path is the directory and the file name that `Path` reads out of it, and
    every operation on files succeeds that finds its file;
  * `parse_render`: a ring whose active key has the highest id is read as it was
    written;
  * `keyfile_rotates`: what rotation leaves, which is all there was and one key
    more, unless the highest id is taken.
-/
import Mathlib.Data.List.Sublists
import Mathlib.Logic.Function.Basic
import SessionBroker.Crypto
import SessionBroker.Lib.Base64
import SessionBroker.Lib.Lookup
import SessionBroker.Text

namespace SessionBroker

namespace Crypto

/-! ## Text -/

/-- A line without the carriage return before its line feed. -/
def dropCr (line : List Char) : List Char :=
  if line.getLast? = some '\r' then line.dropLast else line

def linesGo (line : List Char) : List Char → List (List Char)
  | [] => if line = [] then [] else [line]
  | c :: cs => if c = '\n' then dropCr line :: linesGo [] cs else linesGo (line ++ [c]) cs

/-- `str::lines`. -/
def lines (text : String) : List String := (linesGo [] text.toList).map .ofList

/-- `str::split_once` at the first blank. -/
def splitOnceBlank (s : String) : Option (String × String) :=
  match s.toList.dropWhile (!isWhiteSpace ·) with
  | [] => none
  | _ :: rest => some (.ofList (s.toList.takeWhile (!isWhiteSpace ·)), .ofList rest)

/-- `str::parse::<u8>`. -/
def parseU8 (raw : String) : Option UInt8 :=
  (parseU64 raw).bind fun n => if n < 256 then some (UInt8.ofNat n) else none

/-! ## Parsing -/

/-- `KEYRING_MAGIC`. -/
def keyringMagic : String := "session-broker-keyring v1"

def keyringComment : String :=
  "# Highest id encrypts; the rest only decrypt. Delete an old id only after every row has been resealed past it."

inductive KeyfileError where
  | notText (len : ℕ)
  | noMagic
  | malformedLine (line : String)
  | badId (id : String)
  | notBase64 (id : UInt8)
  | badLength (id : UInt8) (len : ℕ)
  | duplicate (id : UInt8)
  | noKeys
  | full
  | permissive (path : String) (mode : ℕ)
  | notFound
deriving DecidableEq, Repr

/-- The texts, with `{:?}` and `{:o}` given. -/
def KeyfileError.message (debug : String → String) (octal : ℕ → String) : KeyfileError → String
  | notText len => "keyfile is " ++ toString len ++ " bytes and is neither a 32-byte raw key nor a " ++
    "text keyring. Refusing to start rather than derive a key, which would silently make every " ++
    "existing custody row undecryptable."
  | noMagic => "keyfile is not a 32-byte raw key and does not begin with \"" ++ keyringMagic ++ "\""
  | malformedLine line => "malformed keyring line: " ++ debug line
  | badId id => "keyring key id " ++ debug id ++ " is not 0-255"
  | notBase64 id => "key " ++ toString id ++ " is not base64url"
  | badLength id len => "key " ++ toString id ++ " is " ++ toString len ++ " bytes; 32 required"
  | duplicate id => "key id " ++ toString id ++ " appears twice"
  | noKeys => "keyring contains no keys"
  | full => "keyring is full (255 rotations); retire old keys first"
  | permissive path mode => "keyfile " ++ path ++ " has mode " ++ octal mode ++
    "; group/other access must be removed (chmod 600). Refusing to start with a key other users " ++
    "can read."
  | notFound => "No such file or directory"

/-- `keys.keys().next_back()`. -/
def highest (keys : UInt8 → Option KeyBytes) : Option UInt8 :=
  allIds.reverse.find? fun id => (keys id).isSome

/-- One line of the keyfile. -/
def insertLine (keys : UInt8 → Option KeyBytes) (line : String) :
    Except KeyfileError (UInt8 → Option KeyBytes) :=
  match splitOnceBlank line with
  | none => .error (.malformedLine line)
  | some (text, encoded) =>
    match parseU8 text with
    | none => .error (.badId text)
    | some id =>
      match Base64.decode (trim encoded).toList with
      | none => .error (.notBase64 id)
      | some raw =>
        if h : raw.length = 32 then
          if (keys id).isSome then .error (.duplicate id)
          else .ok (Function.update keys id (some ⟨raw, h⟩))
        else .error (.badLength id raw.length)

/-- The end of `KeyRing::parse`: the highest id is active. -/
def ofKeys (keys : UInt8 → Option KeyBytes) : Except KeyfileError KeyRing :=
  match h : highest keys with
  | none => .error .noKeys
  | some active => .ok ⟨active, keys, by simpa using List.find?_some h⟩

/-- `KeyRing::parse`. -/
def KeyRing.parse (bytes : Bytes) : Except KeyfileError KeyRing :=
  if h : bytes.length = 32 ∧ ¬asBytes keyringMagic <+: bytes then
    .ok (.single 1 ⟨bytes, h.1⟩)
  else match fromUtf8 bytes with
    | none => .error (.notText bytes.length)
    | some text =>
      match ((lines text).map trim).filter fun l => l ≠ "" ∧ l.toList.head? ≠ some '#' with
      | [] => .error .noMagic
      | first :: rest =>
        if first = keyringMagic then do
          let keys ← rest.foldlM insertLine fun _ => none
          ofKeys keys
        else .error .noMagic

/-! ## Rendering -/

/-- `&self.keys` in order. -/
def KeyRing.entries (ring : KeyRing) : List (UInt8 × KeyBytes) :=
  allIds.filterMap fun id => (ring.keys id).map (id, ·)

def renderKey (id : UInt8) (key : KeyBytes) : String :=
  toString id.toNat ++ " " ++ .ofList (Base64.encode key.1)

/-- `KeyRing::render`. -/
def KeyRing.render (ring : KeyRing) : String :=
  keyringMagic ++ "\n" ++ keyringComment ++ "\n" ++
    String.join (ring.entries.map fun e => renderKey e.1 e.2 ++ "\n")

/-! ## Rotation -/

/-- `rotate_keyfile` on the ring. -/
def KeyRing.rotate (ring : KeyRing) (key : KeyBytes) : Except KeyfileError KeyRing :=
  if ring.active.toNat + 1 < 256 then
    .ok ⟨ring.active + 1, Function.update ring.keys (ring.active + 1) (some key), by simp⟩
  else .error .full

structure File where
  contents : Bytes
  mode : ℕ
deriving DecidableEq, Repr

/-- A path that ends in a file name. -/
structure KeyPath where
  parent : String
  fileName : String
deriving DecidableEq, Repr

/-- `Path::file_stem`. -/
def KeyPath.fileStem (path : KeyPath) : String :=
  match path.fileName.toList.reverse.dropWhile (· ≠ '.') with
  | _ :: c :: before => .ofList (c :: before).reverse
  | _ => path.fileName

/-- `Path::with_extension`. -/
def KeyPath.withExtension (path : KeyPath) (extension : String) : KeyPath :=
  { path with fileName := path.fileStem ++ "." ++ extension }

abbrev FileSystem := KeyPath → Option File

/-- `write_atomically`. -/
def writeAtomically (fs : FileSystem) (path : KeyPath) (contents : Bytes) : FileSystem :=
  let tmp := path.withExtension "key.tmp"
  let removed := Function.update fs tmp none
  let file : File := ⟨contents, 0o600⟩
  let written := Function.update removed tmp (some file)
  Function.update (Function.update written tmp none) path (some file)

/-- `refuse_permissive`. -/
def refusePermissive (fs : FileSystem) (path : KeyPath) : Except KeyfileError Unit :=
  match fs path with
  | none => .error .notFound
  | some file =>
    if (file.mode &&& 0o777) &&& 0o077 ≠ 0 then
      .error (.permissive (path.parent ++ "/" ++ path.fileName) (file.mode &&& 0o777))
    else .ok ()

/-- `rotate_keyfile`, with the random key it draws. -/
def rotateKeyfile (fs : FileSystem) (path : KeyPath) (key : KeyBytes) :
    Except KeyfileError UInt8 × FileSystem :=
  match refusePermissive fs path, fs path with
  | .error e, _ => (.error e, fs)
  | .ok _, none => (.error .notFound, fs)
  | .ok _, some file =>
    match KeyRing.parse file.contents with
    | .error e => (.error e, fs)
    | .ok ring =>
      match ring.rotate key with
      | .error e => (.error e, fs)
      | .ok rotated => (.ok rotated.active, writeAtomically fs path (asBytes rotated.render))

/-! ## Reading what was written -/

theorem linesGo_append {line : List Char} (h : '\n' ∉ line) (start rest : List Char) :
    linesGo start (line ++ '\n' :: rest) = dropCr (start ++ line) :: linesGo [] rest := by
  induction line generalizing start with
  | nil => simp [linesGo]
  | cons c line ih =>
    have hc : c ≠ '\n' := fun hc => h (hc ▸ List.mem_cons_self)
    have hline : '\n' ∉ line := fun hmem => h (List.mem_cons_of_mem _ hmem)
    rw [List.cons_append, linesGo, if_neg hc, ih hline, List.append_assoc, List.singleton_append]

/-- Lines that are no more than that are read as they were written. -/
theorem linesGo_flatMap {all : List (List Char)}
    (h : ∀ line ∈ all, '\n' ∉ line ∧ '\r' ∉ line) :
    linesGo [] (all.flatMap (· ++ ['\n'])) = all := by
  induction all with
  | nil => rfl
  | cons line all ih =>
    obtain ⟨hfeed, hreturn⟩ := h line List.mem_cons_self
    have hdrop : dropCr line = line := by
      unfold dropCr
      rw [if_neg fun hlast => hreturn (List.mem_of_getLast? hlast)]
    rw [List.flatMap_cons, List.append_assoc, List.singleton_append, linesGo_append hfeed,
      List.nil_append, hdrop, ih fun l hl => h l (List.mem_cons_of_mem _ hl)]

/-- A text without blanks. -/
def Solid (text : List Char) : Prop := ∀ c ∈ text, isWhiteSpace c = false

theorem trim_solid {s : String} (h : Solid s.toList) : trim s = s :=
  trim_eq_self (fun c hc => h c (List.mem_of_head? hc)) fun c hc => h c (List.mem_of_getLast? hc)

theorem solid_digit {n : ℕ} (h : n < 64) : isWhiteSpace (Base64.digit n) = false := by
  have hall : ∀ i : Fin 64, isWhiteSpace (Base64.digit i) = false := by decide
  exact hall ⟨n, h⟩

theorem solid_encode (bytes : Bytes) : Solid (Base64.encode bytes) := by
  intro c hc
  obtain ⟨n, hn, rfl⟩ := Base64.mem_encode hc
  exact solid_digit hn

/-- The text of an id. -/
theorem parseU8_toString (id : UInt8) : parseU8 (toString id.toNat) = some id := by
  have hlt : id.toNat < 256 := id.toNat_lt
  unfold parseU8
  rw [parseU64_toString (by omega), Option.bind_some, if_pos hlt, UInt8.ofNat_toNat]

theorem isWhiteSpace_digit {c : Char} (h : c.isDigit = true) : isWhiteSpace c = false := by
  simp only [Char.isDigit, Bool.and_eq_true, decide_eq_true_eq] at h
  have hge : 48 ≤ c.toNat := h.1
  have hle : c.toNat ≤ 57 := h.2
  unfold isWhiteSpace
  simp
  omega

theorem solid_toString (n : ℕ) : Solid (toString n).toList := by
  intro c hc
  exact isWhiteSpace_digit (isDigit_toString hc)

/-- A line of the file: the id, a blank, the key. -/
theorem renderKey_toList (id : UInt8) (key : KeyBytes) : (renderKey id key).toList =
    (toString id.toNat).toList ++ ' ' :: Base64.encode key.1 := by
  unfold renderKey
  simp

theorem trim_renderKey (id : UInt8) (key : KeyBytes) : trim (renderKey id key) = renderKey id key := by
  have hkey : Base64.encode key.1 ≠ [] := Base64.encode_ne_nil (List.ne_nil_of_length_eq_add_one key.2)
  refine trim_eq_self (fun c hc => ?_) fun c hc => ?_
  · rw [renderKey_toList, List.head?_append_of_ne_nil _ (toString_ne_nil _)] at hc
    exact solid_toString _ c (List.mem_of_head? hc)
  · rw [renderKey_toList, List.getLast?_append_of_ne_nil _ (List.cons_ne_nil _ _),
      List.getLast?_cons_of_ne_nil hkey] at hc
    exact solid_encode key.1 c (List.mem_of_getLast? hc)

theorem splitOnceBlank_eq {s text rest : String} (hs : s.toList = text.toList ++ ' ' :: rest.toList)
    (hsolid : Solid text.toList) : splitOnceBlank s = some (text, rest) := by
  have hall : ∀ c ∈ text.toList, (!isWhiteSpace c) = true := by
    intro c hc
    rw [hsolid c hc]
    rfl
  have hstop : ∀ c, (' ' :: rest.toList).head? = some c → (!isWhiteSpace c) = false := by
    intro c hc
    cases hc
    rfl
  unfold splitOnceBlank
  rw [hs, Trim.dropWhile_stop hall hstop, Trim.takeWhile_stop hall hstop]
  simp

theorem splitOnceBlank_renderKey (id : UInt8) (key : KeyBytes) :
    splitOnceBlank (renderKey id key) = some (toString id.toNat, .ofList (Base64.encode key.1)) :=
  splitOnceBlank_eq (by rw [renderKey_toList, String.toList_ofList]) (solid_toString _)

theorem insertLine_renderKey {keys : UInt8 → Option KeyBytes} {id : UInt8} (h : keys id = none)
    (key : KeyBytes) : insertLine keys (renderKey id key) = .ok (Function.update keys id (some key)) := by
  have htrim : (trim (.ofList (Base64.encode key.1))).toList = Base64.encode key.1 := by
    rw [trim_solid (by rw [String.toList_ofList]; exact solid_encode key.1), String.toList_ofList]
  unfold insertLine
  rw [splitOnceBlank_renderKey]
  dsimp only
  rw [parseU8_toString]
  dsimp only
  rw [htrim, Base64.decode_encode]
  dsimp only
  rw [dif_pos key.2, if_neg (by simp [h])]

/-- The keys of the lines, on top of the ones that were read before. -/
theorem foldlM_insertLine (pairs : List (UInt8 × KeyBytes)) (hnodup : (pairs.map (·.1)).Nodup)
    (keys : UInt8 → Option KeyBytes) (hnew : ∀ e ∈ pairs, keys e.1 = none) :
    (pairs.map fun e => renderKey e.1 e.2).foldlM insertLine keys =
      .ok fun id => (pairs.lookup id).or (keys id) := by
  induction pairs generalizing keys with
  | nil => simp [pure, Except.pure]
  | cons e pairs ih =>
    obtain ⟨hnotin, hnodup⟩ := List.nodup_cons.1 hnodup
    rw [List.map_cons, List.foldlM_cons, insertLine_renderKey (hnew e List.mem_cons_self)]
    have hrest : ∀ e' ∈ pairs, Function.update keys e.1 (some e.2) e'.1 = none := by
      intro e' he'
      have hne : e'.1 ≠ e.1 := by
        intro hid
        exact hnotin (List.mem_map.2 ⟨e', he', hid⟩)
      rw [Function.update_of_ne hne]
      exact hnew e' (List.mem_cons_of_mem _ he')
    rw [show (Except.ok (Function.update keys e.1 (some e.2)) >>= fun keys =>
      (pairs.map fun e => renderKey e.1 e.2).foldlM insertLine keys) =
      (pairs.map fun e => renderKey e.1 e.2).foldlM insertLine (Function.update keys e.1 (some e.2)) from rfl,
      ih hnodup _ hrest]
    congr 1
    ext1 id
    by_cases hid : id = e.1
    · subst hid
      rw [List.lookup_cons_self, Lookup.lookup_eq_none.2 hnotin, Function.update_self]
      rfl
    · rw [List.lookup_cons, beq_false_of_ne hid, Function.update_of_ne hid]

/-! ## Rings -/

theorem allIds_sorted : allIds.Pairwise (· < ·) := by
  rw [allIds, List.pairwise_map]
  refine List.pairwise_lt_range.imp_of_mem fun hi hj hlt => ?_
  rw [List.mem_range] at hi hj
  rw [UInt8.lt_iff_toNat_lt, UInt8.toNat_ofNat_of_lt' hi, UInt8.toNat_ofNat_of_lt' hj]
  exact hlt

/-- **Spec of `next_back`.** -/
theorem highest_eq_some {keys : UInt8 → Option KeyBytes} {active : UInt8} :
    highest keys = some active ↔
      (keys active).isSome ∧ ∀ id, (keys id).isSome → id ≤ active := by
  have hsorted := List.pairwise_reverse.2 allIds_sorted
  unfold highest
  rw [List.find?_eq_some_iff_append]
  constructor
  · rintro ⟨hactive, before, after, hall, hbefore⟩
    refine ⟨hactive, fun id hid => ?_⟩
    have hmem : id ∈ before ++ active :: after := hall ▸ List.mem_reverse.2 (mem_allIds id)
    rw [hall] at hsorted
    rcases List.mem_append.1 hmem with hin | hin
    · simp only [Bool.not_eq_true'] at hbefore
      rw [hbefore id hin] at hid
      cases hid
    · rcases List.mem_cons.1 hin with rfl | hin
      · exact UInt8.le_refl _
      · have hlt := List.rel_of_pairwise_cons (List.pairwise_append.1 hsorted).2.1 hin
        exact UInt8.le_of_lt hlt
  · rintro ⟨hactive, hmax⟩
    obtain ⟨before, after, hall⟩ := List.append_of_mem (List.mem_reverse.2 (mem_allIds active))
    refine ⟨hactive, before, after, hall, fun id hid => ?_⟩
    rw [hall] at hsorted
    have hlt : active < id := (List.pairwise_append.1 hsorted).2.2 id hid active List.mem_cons_self
    by_contra hsome
    have hle := hmax id (Option.isSome_iff_ne_none.2 (by simpa using hsome))
    exact absurd hlt (UInt8.not_lt.2 hle)

theorem ofKeys_eq_ok {keys : UInt8 → Option KeyBytes} {ring : KeyRing} :
    ofKeys keys = .ok ring ↔ ring.keys = keys ∧ highest keys = some ring.active := by
  unfold ofKeys
  split
  · rename_i hnone
    simp [hnone]
  · rename_i active hsome
    constructor
    · rintro ⟨⟩
      exact ⟨rfl, hsome⟩
    · rintro ⟨rfl, hactive⟩
      obtain rfl : active = ring.active := Option.some.inj (hsome.symm.trans hactive)
      rfl

namespace KeyRing

variable {ring ring' : KeyRing}

/-- The active key has the highest id. -/
def Ordered (ring : KeyRing) : Prop := ∀ id, (ring.keys id).isSome → id ≤ ring.active

theorem entries_ids (ring : KeyRing) :
    ring.entries.map (·.1) = allIds.filter fun id => (ring.keys id).isSome := by
  unfold entries
  induction allIds with
  | nil => rfl
  | cons id ids ih =>
    cases hkey : ring.keys id with
    | none =>
      rw [List.filterMap_cons_none (by rw [hkey, Option.map_none]), ih,
        List.filter_cons_of_neg (by simp [hkey])]
    | some key =>
      have hentry : (ring.keys id).map (id, ·) = some (id, key) := by rw [hkey, Option.map_some]
      simp only [List.filterMap_cons, hentry, List.map_cons, ih]
      rw [List.filter_cons_of_pos (by simp [hkey])]

theorem entries_nodup (ring : KeyRing) : (ring.entries.map (·.1)).Nodup := by
  rw [entries_ids]
  exact (allIds_sorted.imp fun hlt => (UInt8.ne_of_lt hlt)).filter _

theorem mem_entries {id : UInt8} {key : KeyBytes} :
    (id, key) ∈ ring.entries ↔ ring.keys id = some key := by
  unfold entries
  rw [List.mem_filterMap]
  constructor
  · rintro ⟨id', -, hsome⟩
    obtain ⟨key', hkey, heq⟩ := Option.map_eq_some_iff.1 hsome
    cases heq
    exact hkey
  · intro hkey
    exact ⟨id, mem_allIds id, by simp [hkey]⟩

theorem lookup_entries (ring : KeyRing) (id : UInt8) : ring.entries.lookup id = ring.keys id := by
  cases hkey : ring.keys id with
  | some key => exact Lookup.lookup_of_mem ring.entries_nodup (mem_entries.2 hkey)
  | none =>
    rw [Lookup.lookup_eq_none, entries_ids, List.mem_filter]
    simp [hkey]

theorem magic_text : '\n' ∉ keyringMagic.toList ∧ '\r' ∉ keyringMagic.toList ∧
    keyringMagic.toList.head? = some 's' ∧ keyringMagic.toList.getLast? = some '1' := by
  rw [keyringMagic, String.toList_ofList]
  decide +kernel

theorem comment_text : '\n' ∉ keyringComment.toList ∧ '\r' ∉ keyringComment.toList ∧
    keyringComment.toList.head? = some '#' ∧ keyringComment.toList.getLast? = some '.' := by
  rw [keyringComment, String.toList_ofList]
  decide +kernel

theorem trim_of_ends {s : String} {first last : Char} (hfirst : s.toList.head? = some first)
    (hlast : s.toList.getLast? = some last) (hfirst' : isWhiteSpace first = false)
    (hlast' : isWhiteSpace last = false) : trim s = s := by
  refine trim_eq_self (fun c hc => ?_) fun c hc => ?_
  · rwa [Option.some.inj (hc.symm.trans hfirst)]
  · rwa [Option.some.inj (hc.symm.trans hlast)]

/-- The lines of the file. -/
theorem lines_render (ring : KeyRing) : lines ring.render =
    keyringMagic :: keyringComment :: ring.entries.map fun e => renderKey e.1 e.2 := by
  have hchars : ring.render.toList = (keyringMagic.toList :: keyringComment.toList ::
      ring.entries.map fun e => (renderKey e.1 e.2).toList).flatMap (· ++ ['\n']) := by
    unfold render
    simp [String.toList_join, List.flatMap_def, Function.comp_def]
  have hplain : ∀ line ∈ keyringMagic.toList :: keyringComment.toList ::
      ring.entries.map (fun e => (renderKey e.1 e.2).toList), '\n' ∉ line ∧ '\r' ∉ line := by
    intro line hline
    rcases List.mem_cons.1 hline with rfl | hline
    · exact ⟨magic_text.1, magic_text.2.1⟩
    rcases List.mem_cons.1 hline with rfl | hline
    · exact ⟨comment_text.1, comment_text.2.1⟩
    obtain ⟨⟨id, key⟩, -, rfl⟩ := List.mem_map.1 hline
    have hline : ∀ c ∈ (renderKey id key).toList, c = ' ' ∨ isWhiteSpace c = false := by
      intro c hc
      rw [renderKey_toList] at hc
      rcases List.mem_append.1 hc with hc | hc
      · exact .inr (solid_toString _ c hc)
      · rcases List.mem_cons.1 hc with hc | hc
        · exact .inl hc
        · exact .inr (solid_encode key.1 c hc)
    constructor
    · intro hfeed
      rcases hline _ hfeed with h | h
      · cases h
      · simp [isWhiteSpace] at h
    · intro hreturn
      rcases hline _ hreturn with h | h
      · cases h
      · simp [isWhiteSpace] at h
  unfold lines
  rw [hchars, linesGo_flatMap hplain]
  simp [Function.comp_def]

/-- The lines that count. -/
theorem content_render (ring : KeyRing) :
    ((lines ring.render).map trim).filter (fun l => l ≠ "" ∧ l.toList.head? ≠ some '#') =
      keyringMagic :: ring.entries.map fun e => renderKey e.1 e.2 := by
  obtain ⟨-, -, hmagicHead, hmagicLast⟩ := magic_text
  obtain ⟨-, -, hcommentHead, hcommentLast⟩ := comment_text
  have hmagic : trim keyringMagic = keyringMagic := trim_of_ends hmagicHead hmagicLast rfl rfl
  have hcomment : trim keyringComment = keyringComment := trim_of_ends hcommentHead hcommentLast rfl rfl
  have hmagicCounts : keyringMagic ≠ "" ∧ keyringMagic.toList.head? ≠ some '#' := by
    rw [hmagicHead]
    exact ⟨fun hempty => by simp [hempty] at hmagicHead, by decide⟩
  have hcommentCounts : ¬(keyringComment ≠ "" ∧ keyringComment.toList.head? ≠ some '#') := by
    rw [hcommentHead]
    exact fun h => h.2 rfl
  have hentries : (ring.entries.map fun e => renderKey e.1 e.2).map trim =
      ring.entries.map fun e => renderKey e.1 e.2 := by
    rw [List.map_map]
    exact List.map_congr_left fun e _ => trim_renderKey e.1 e.2
  rw [lines_render, List.map_cons, List.map_cons, hmagic, hcomment, hentries,
    List.filter_cons_of_pos (by rwa [decide_eq_true_iff]),
    List.filter_cons_of_neg (by rwa [decide_eq_true_iff]), List.filter_eq_self.2]
  intro line hline
  obtain ⟨⟨id, key⟩, -, rfl⟩ := List.mem_map.1 hline
  have hne := toString_ne_nil id.toNat
  have hhash : (toString id.toNat).toList.head? ≠ some '#' := by
    intro hhead
    exact absurd (isDigit_toString (List.mem_of_head? hhead)) (by decide)
  have hhead : (renderKey id key).toList.head? = (toString id.toNat).toList.head? := by
    rw [renderKey_toList, List.head?_append_of_ne_nil _ hne]
  have hfull : renderKey id key ≠ "" := by
    intro hempty
    rw [hempty] at hhead
    exact hne (List.head?_eq_none_iff.1 hhead.symm)
  rw [decide_eq_true_iff, hhead]
  exact ⟨hfull, hhash⟩

end KeyRing

theorem fromUtf8_asBytes (s : String) : fromUtf8 (asBytes s) = some s := by
  have hbytes : (⟨(asBytes s).toArray⟩ : ByteArray) = s.toByteArray := by
    unfold asBytes
    simp
  unfold fromUtf8 String.fromUTF8?
  rw [hbytes, dif_pos s.isValidUTF8]
  rfl

theorem asBytes_append (s t : String) : asBytes (s ++ t) = asBytes s ++ asBytes t := by
  unfold asBytes
  simp

/-- **Round trip**: a ring is read as it was written. -/
theorem KeyRing.parse_render {ring : KeyRing} (h : ring.Ordered) :
    KeyRing.parse (asBytes ring.render) = .ok ring := by
  have hstarts : asBytes keyringMagic <+: asBytes ring.render := by
    unfold KeyRing.render
    rw [String.append_assoc, String.append_assoc, String.append_assoc, asBytes_append]
    exact List.prefix_append ..
  have hkeys : (fun id => (ring.entries.lookup id).or none) = ring.keys := by
    ext1 id
    rw [ring.lookup_entries, Option.or_none]
  unfold KeyRing.parse
  rw [dif_neg (by simp [hstarts]), fromUtf8_asBytes]
  dsimp only
  rw [ring.content_render]
  dsimp only
  rw [if_pos rfl, foldlM_insertLine _ ring.entries_nodup _ (fun _ _ => rfl), hkeys]
  exact ofKeys_eq_ok.2 ⟨rfl, highest_eq_some.2 ⟨ring.active_mem, h⟩⟩

theorem KeyRing.parse_ordered {bytes : Bytes} {ring : KeyRing} (h : KeyRing.parse bytes = .ok ring) :
    ring.Ordered := by
  unfold KeyRing.parse at h
  split_ifs at h with hraw
  · cases h
    intro id hid
    by_cases hone : id = 1
    · exact hone ▸ UInt8.le_refl _
    · simp [KeyRing.single, hone] at hid
  split at h
  · cases h
  split at h
  · cases h
  split_ifs at h
  rename_i rest _ _
  cases hkeys : rest.foldlM insertLine fun _ => none with
  | error e =>
    rw [hkeys] at h
    cases h
  | ok keys =>
    rw [hkeys] at h
    obtain ⟨rfl, hhighest⟩ := ofKeys_eq_ok.1 h
    exact (highest_eq_some.1 hhighest).2

/-! ## Rotating -/

namespace KeyRing

variable {ring ring' : KeyRing} {key : KeyBytes}

/-- All the keys of `ring` under their ids, and one more, which is active. -/
structure Grown (ring ring' : KeyRing) (key : KeyBytes) : Prop where
  fresh : ring.keys ring'.active = none
  added : ring'.keys ring'.active = some key
  kept : ∀ id, id ≠ ring'.active → ring'.keys id = ring.keys id

theorem Grown.opens (h : ring.Grown ring' key) {cipher : Cipher} {value context plaintext : Bytes}
    (hopens : ring.open cipher value context = .ok plaintext) :
    ring'.open cipher value context = .ok plaintext := by
  refine open_of_keys (fun kid key hkey => ?_) hopens
  have hne : kid ≠ ring'.active := by
    rintro rfl
    rw [h.fresh] at hkey
    cases hkey
  rw [h.kept kid hne, hkey]

theorem active_toNat_succ (h : ring.active.toNat + 1 < 256) :
    (ring.active + 1).toNat = ring.active.toNat + 1 := by
  rw [UInt8.toNat_add, UInt8.toNat_one]
  omega

theorem Ordered.fresh (hordered : ring.Ordered) (h : ring.active.toNat + 1 < 256) :
    ring.keys (ring.active + 1) = none := by
  by_contra hsome
  have hle := UInt8.le_iff_toNat_le.1 (hordered _ (Option.isSome_iff_ne_none.2 hsome))
  rw [active_toNat_succ h] at hle
  omega

/-- **Spec of rotation on a ring.** -/
theorem rotate_eq_ok (hordered : ring.Ordered) (h : ring.rotate key = .ok ring') :
    ring.Grown ring' key ∧ ring'.Ordered := by
  unfold rotate at h
  split_ifs at h with hlt
  cases h
  have hnext := active_toNat_succ hlt
  refine ⟨⟨hordered.fresh hlt, Function.update_self .., fun id hid => Function.update_of_ne hid ..⟩, ?_⟩
  intro id hid
  dsimp only at hid ⊢
  by_cases hnew : id = ring.active + 1
  · exact hnew ▸ UInt8.le_refl _
  · rw [Function.update_of_ne hnew] at hid
    have hle := UInt8.le_iff_toNat_le.1 (hordered id hid)
    rw [UInt8.le_iff_toNat_le, hnext]
    omega

theorem Ordered.active_eq_iff (h : ring.Ordered) : ¬ring.active.toNat + 1 < 256 ↔
    (ring.keys 255).isSome := by
  have hlt := ring.active.toNat_lt
  have h255 : (255 : UInt8).toNat = 255 := rfl
  constructor
  · intro hlast
    have hactive : ring.active = 255 := UInt8.toNat_inj.1 (by omega)
    rw [← hactive]
    exact ring.active_mem
  · intro hlast
    have hle := UInt8.le_iff_toNat_le.1 (h _ hlast)
    omega

/-- Rings that come from a keyfile and any number of rotations. -/
inductive Arising : KeyRing → Prop
  | parsed {bytes : Bytes} {ring : KeyRing} (h : KeyRing.parse bytes = .ok ring) : Arising ring
  | rotated {ring ring' : KeyRing} {key : KeyBytes} (hring : Arising ring)
      (h : ring.rotate key = .ok ring') : Arising ring'

theorem Arising.ordered (h : Arising ring) : ring.Ordered := by
  induction h with
  | parsed h => exact parse_ordered h
  | rotated _ h ih => exact (rotate_eq_ok ih h).2

end KeyRing

/-- A file that is its owner's only. -/
def File.Private (file : File) : Prop := file.mode &&& 0o077 = 0

theorem private_owner (contents : Bytes) : (File.mk contents 0o600).Private := by
  have hmode : 0o600 &&& 0o077 = 0 := by decide
  exact hmode

theorem refusePermissive_eq_ok {fs : FileSystem} {path : KeyPath} {file : File}
    (hfile : fs path = some file) (hprivate : file.Private) : refusePermissive fs path = .ok () := by
  have hmode : (file.mode &&& 0o777) &&& 0o077 = 0 := by
    rw [Nat.and_assoc]
    exact hprivate
  unfold refusePermissive
  rw [hfile]
  dsimp only
  rw [if_neg (not_not.2 hmode)]

/-- What rotation does with a file that it reads. -/
theorem rotateKeyfile_eq {fs : FileSystem} {path : KeyPath} {file : File} {ring : KeyRing}
    (hfile : fs path = some file) (hprivate : file.Private)
    (hparse : KeyRing.parse file.contents = .ok ring) (key : KeyBytes) :
    rotateKeyfile fs path key = match ring.rotate key with
      | .error e => (.error e, fs)
      | .ok rotated => (.ok rotated.active, writeAtomically fs path (asBytes rotated.render)) := by
  unfold rotateKeyfile
  rw [refusePermissive_eq_ok hfile hprivate, hfile]
  dsimp only
  rw [hparse]

/-- **A keyfile is read as it was written, and rotation adds a key to it.**  Only
    when the highest id is taken the rotation fails, and the file stays. -/
theorem keyfile_rotates :
    (∀ ring : KeyRing, ring.Arising → KeyRing.parse (asBytes ring.render) = .ok ring) ∧
    ∀ (fs : FileSystem) (path : KeyPath) (file : File) (ring : KeyRing) (key : KeyBytes),
      fs path = some file → file.Private → KeyRing.parse file.contents = .ok ring →
      ((ring.keys 255).isSome → rotateKeyfile fs path key = (.error .full, fs)) ∧
      (ring.keys 255 = none → ∃ ring' fs' file', rotateKeyfile fs path key = (.ok ring'.active, fs') ∧
        fs' path = some file' ∧ file'.Private ∧ KeyRing.parse file'.contents = .ok ring' ∧
        ring.Grown ring' key ∧
        ∀ (cipher : Cipher) (value context plaintext : Bytes),
          ring.open cipher value context = .ok plaintext →
          ring'.open cipher value context = .ok plaintext) := by
  refine ⟨fun ring h => KeyRing.parse_render h.ordered, ?_⟩
  intro fs path file ring key hfile hprivate hparse
  have hordered := KeyRing.parse_ordered hparse
  have hrotate := rotateKeyfile_eq hfile hprivate hparse key
  constructor
  · intro hlast
    rw [hrotate, KeyRing.rotate, if_neg (hordered.active_eq_iff.2 hlast)]
  · intro hlast
    have hlt : ring.active.toNat + 1 < 256 := by
      by_contra hfull
      have hsome := hordered.active_eq_iff.1 hfull
      rw [hlast] at hsome
      cases hsome
    obtain ⟨ring', hring⟩ : ∃ ring', ring.rotate key = .ok ring' := by
      rw [KeyRing.rotate, if_pos hlt]
      exact ⟨_, rfl⟩
    obtain ⟨hgrown, hordered'⟩ := KeyRing.rotate_eq_ok hordered hring
    rw [hrotate, hring]
    refine ⟨ring', _, ⟨asBytes ring'.render, 0o600⟩, rfl, Function.update_self ..,
      private_owner _, KeyRing.parse_render hordered', hgrown, ?_⟩
    intro cipher value context plaintext
    exact hgrown.opens

/-- A raw key. -/
theorem keyfile_rotates_raw :
    let path : KeyPath := ⟨"/etc", "broker.key"⟩
    let old : KeyBytes := ⟨List.replicate 32 7, rfl⟩
    let key : KeyBytes := ⟨List.replicate 32 9, rfl⟩
    let fs : FileSystem := fun p => if p = path then some ⟨old.1, 0o600⟩ else none
    KeyRing.parse (asBytes (KeyRing.single 1 old).render) = .ok (KeyRing.single 1 old) ∧
      ∃ ring' fs' file', rotateKeyfile fs path key = (.ok ring'.active, fs') ∧
        fs' path = some file' ∧ KeyRing.parse file'.contents = .ok ring' ∧
        (KeyRing.single 1 old).Grown ring' key := by
  intro path old key fs
  have hparse : KeyRing.parse old.1 = .ok (KeyRing.single 1 old) := by
    unfold KeyRing.parse
    rw [dif_pos (by decide)]
  refine ⟨keyfile_rotates.1 _ (.parsed hparse), ?_⟩
  obtain ⟨ring', fs', file', hrotate, hfile, -, hread, hgrown, -⟩ :=
    (keyfile_rotates.2 fs path ⟨old.1, 0o600⟩ _ key (if_pos rfl)
      (private_owner _) hparse).2 rfl
  exact ⟨ring', fs', file', hrotate, hfile, hread, hgrown⟩

/-- One key, under the highest id: no other id is in the file, and it cannot be
    rotated. -/
theorem keyfile_stuck :
    ∃ (fs : FileSystem) (path : KeyPath) (file : File) (ring : KeyRing) (key : KeyBytes),
      fs path = some file ∧ file.Private ∧ KeyRing.parse file.contents = .ok ring ∧
      (∀ id, id ≠ 255 → ring.keys id = none) ∧ rotateKeyfile fs path key = (.error .full, fs) := by
  obtain ⟨key⟩ : Nonempty KeyBytes := ⟨⟨List.replicate 32 7, rfl⟩⟩
  obtain ⟨path⟩ : Nonempty KeyPath := ⟨⟨"/etc", "broker.key"⟩⟩
  have hparse : KeyRing.parse (asBytes (KeyRing.single 255 key).render) = .ok (KeyRing.single 255 key) := by
    refine KeyRing.parse_render fun id _ => ?_
    have hlt := id.toNat_lt
    exact UInt8.le_iff_toNat_le.2 (Nat.le_of_lt_succ hlt)
  have hrotate : (KeyRing.single 255 key).rotate key = .error .full := rfl
  have hprivate := private_owner (asBytes (KeyRing.single 255 key).render)
  refine ⟨fun _ => some _, path, _, _, key, rfl, hprivate, hparse, fun id hid => if_neg hid, ?_⟩
  rw [rotateKeyfile_eq rfl hprivate hparse, hrotate]

end Crypto

end SessionBroker
