/-
  `reseal_all` (`store/repo.rs`), on the bytes of the sealed columns.

  * A `SealedTable` says where a table keeps its sealed values; the pass over it
    reads the rows and then updates one after the other;
  * the columns that no pass reads or writes are left out, and the random nonces
    of a pass are given by the place of the value;
  * `fst_resealWith`: the pass is a change of each visited row on its own;
  * `reseal_loses_nothing`: for a whole store and everything in it.
-/
import Mathlib.Data.Fintype.Basic
import SessionBroker.Crypto

namespace SessionBroker

open Table

namespace Crypto

/-! ## Passes -/

/-- The rows of a table, which of them a pass visits, and their sealed columns. -/
structure SealedTable (ρ ι : Type) where
  key : ρ → String
  visited : ρ → Bool
  place : String → ι → Place
  get : ρ → ι → Bytes
  put : (ι → Bytes) → ρ → ρ
  key_put : ∀ values row, key (put values row) = key row
  visited_put : ∀ values row, visited (put values row) = visited row
  get_put : ∀ values row, get (put values row) = values

namespace SealedTable

section
variable {ρ ι : Type} [Fintype ι] (table : SealedTable ρ ι) (cipher : Cipher) (ring : KeyRing)
  (nonce : Place → Nonce)

/-- Every column is under the active key. -/
def Current (row : ρ) : Prop := ∀ i, keyIdOf (table.get row i) = some ring.active

instance (row : ρ) : Decidable (table.Current ring row) := by
  unfold Current
  infer_instance

/-- The context of a column. -/
def context (row : ρ) (i : ι) : Bytes := (table.place (table.key row) i).context

/-- What a column opens to. -/
def opened (row : ρ) (i : ι) : Option Bytes :=
  (ring.open cipher (table.get row i) (table.context row i)).toOption

/-- The columns of a row, sealed anew. -/
def sealings (row : ρ) (plaintexts : ι → Bytes) (i : ι) : Bytes :=
  ring.seal cipher (nonce (table.place (table.key row) i)) (plaintexts i) (table.context row i)

/-- One row of a pass. -/
def resealStep (st : List ρ × ResealReport) (row : ρ) : List ρ × ResealReport :=
  if table.Current ring row then (st.1, { st.2 with current := st.2.current + 1 })
  else if h : ∀ i, (table.opened cipher ring row i).isSome then
    let values := table.sealings cipher ring nonce row fun i => (table.opened cipher ring row i).get (h i)
    (updateWhere (fun r => table.key r = table.key row) (table.put values) st.1,
      { st.2 with resealed := st.2.resealed + 1 })
  else (st.1, { st.2 with failed := st.2.failed + 1 })

def resealWith (stored : List ρ) : List ρ × ResealReport :=
  (stored.filter table.visited).foldl (table.resealStep cipher ring nonce) (stored, ⟨0, 0, 0⟩)

/-- The column of a row. -/
def find (stored : List ρ) (id : String) (i : ι) : Option Bytes :=
  (stored.find? fun r => table.key r = id).map (table.get · i)

end

end SealedTable

/-! ## Tables -/

structure CustodyRow where
  custodyId : String
  refreshTok : Bytes
  accessTok : Bytes
deriving DecidableEq, Repr

inductive TokenColumn where
  | refresh
  | access
deriving DecidableEq, Repr

instance : Fintype TokenColumn where
  elems := {.refresh, .access}
  complete i := by cases i <;> decide

def custodyTable : SealedTable CustodyRow TokenColumn where
  key := (·.custodyId)
  visited _ := true
  place
    | id, .refresh => .refresh id
    | id, .access => .access id
  get
    | row, .refresh => row.refreshTok
    | row, .access => row.accessTok
  put values row := { row with refreshTok := values .refresh, accessTok := values .access }
  key_put _ _ := rfl
  visited_put _ _ := rfl
  get_put values row := by
    ext1 i
    cases i <;> rfl

structure SigningKeyRow where
  kid : String
  seedSealed : Bytes
deriving DecidableEq, Repr

/-- Removed keys are visited too. -/
def signingKeyTable : SealedTable SigningKeyRow Unit where
  key := (·.kid)
  visited _ := true
  place id _ := .seed id
  get row _ := row.seedSealed
  put values row := { row with seedSealed := values () }
  key_put _ _ := rfl
  visited_put _ _ := rfl
  get_put _ _ := rfl

structure ProviderRow where
  id : String
  clientSecretSealed : Bytes
  deletedAt : Option Timestamp
deriving DecidableEq, Repr

/-- `WHERE deleted_at IS NULL`. -/
def identityProviderTable : SealedTable ProviderRow Unit where
  key := (·.id)
  visited row := row.deletedAt = none
  place id _ := .clientSecret id
  get row _ := row.clientSecretSealed
  put values row := { row with clientSecretSealed := values () }
  key_put _ _ := rfl
  visited_put _ _ := rfl
  get_put _ _ := rfl

def resealCustodyWith (cipher : Cipher) (ring : KeyRing) (nonce : Place → Nonce)
    (custody : List CustodyRow) : List CustodyRow × ResealReport :=
  custodyTable.resealWith cipher ring nonce custody

def resealSigningKeysWith (cipher : Cipher) (ring : KeyRing) (nonce : Place → Nonce)
    (signingKey : List SigningKeyRow) : List SigningKeyRow × ResealReport :=
  signingKeyTable.resealWith cipher ring nonce signingKey

def resealProvidersWith (cipher : Cipher) (ring : KeyRing) (nonce : Place → Nonce)
    (identityProvider : List ProviderRow) : List ProviderRow × ResealReport :=
  identityProviderTable.resealWith cipher ring nonce identityProvider

/-! ## One pass -/

namespace KeyRing

variable {cipher : Cipher} {ring ring' : KeyRing} {value context context' plaintext plaintext' : Bytes}

/-- A value opens in one context at most, and to one text. -/
theorem open_unique (h : ring.open cipher value context = .ok plaintext)
    (h' : ring'.open cipher value context' = .ok plaintext') :
    context' = context ∧ plaintext' = plaintext := by
  obtain ⟨kid, key, nonce, -, rfl⟩ := open_eq_ok.1 h
  obtain ⟨rfl, rfl, -⟩ := open_bytes_iff.1 h'
  exact ⟨rfl, rfl⟩

/-- The ring that holds the active key only. -/
def activeOnly (ring : KeyRing) : KeyRing := .single ring.active ring.activeKey

/-- What is under the active key opens with that key alone. -/
theorem open_activeOnly (hactive : keyIdOf value = some ring.active)
    (h : ring.open cipher value context = .ok plaintext) :
    ring.activeOnly.open cipher value context = .ok plaintext := by
  obtain ⟨kid, key, nonce, hkey, rfl⟩ := open_eq_ok.1 h
  obtain rfl : kid = ring.active := Option.some.inj hactive
  obtain rfl : ring.activeKey = key := Option.some.inj (ring.keys_active.symm.trans hkey)
  exact open_eq_ok.2 ⟨_, _, nonce, if_pos rfl, rfl⟩

end KeyRing

namespace SealedTable

variable {ρ ι : Type} [Fintype ι] {table : SealedTable ρ ι} {cipher : Cipher} {ring : KeyRing}
  {nonce nonce' : Place → Nonce} {row : ρ} {rows stored : List ρ} {st : List ρ × ResealReport}
  {i : ι} {rowId : String} {value context plaintext : Bytes}

omit [Fintype ι] in
theorem opened_eq_some : table.opened cipher ring row i = some plaintext ↔
    ring.open cipher (table.get row i) (table.context row i) = .ok plaintext := by
  unfold opened
  exact toOption_eq_some

/-- What a pass writes for `row`. -/
def rewrite (table : SealedTable ρ ι) (cipher : Cipher) (ring : KeyRing) (nonce : Place → Nonce)
    (row : ρ) : ρ → ρ :=
  if table.Current ring row then id
  else if h : ∀ i, (table.opened cipher ring row i).isSome then
    table.put (table.sealings cipher ring nonce row fun i => (table.opened cipher ring row i).get (h i))
  else id

/-- The three cases of a row. -/
theorem rewrite_cases (table : SealedTable ρ ι) (cipher : Cipher) (ring : KeyRing)
    (nonce : Place → Nonce) (row : ρ) :
    (table.Current ring row ∧ table.rewrite cipher ring nonce row = id) ∨
    (∃ plaintexts : ι → Bytes, (∀ i, table.opened cipher ring row i = some (plaintexts i)) ∧
      table.rewrite cipher ring nonce row =
        table.put (table.sealings cipher ring nonce row plaintexts)) ∨
    (¬table.Current ring row ∧ (¬∀ i, (table.opened cipher ring row i).isSome) ∧
      table.rewrite cipher ring nonce row = id) := by
  unfold rewrite
  split_ifs with hcurrent hopen
  · exact .inl ⟨hcurrent, rfl⟩
  · exact .inr (.inl ⟨_, fun i => (Option.some_get (hopen i)).symm, rfl⟩)
  · exact .inr (.inr ⟨hcurrent, hopen, rfl⟩)

theorem key_rewrite (row r : ρ) : table.key (table.rewrite cipher ring nonce row r) = table.key r := by
  obtain ⟨-, h⟩ | ⟨plaintexts, -, h⟩ | ⟨-, -, h⟩ := table.rewrite_cases cipher ring nonce row
  · rw [h, id_eq]
  · rw [h, table.key_put]
  · rw [h, id_eq]

theorem visited_rewrite (row r : ρ) :
    table.visited (table.rewrite cipher ring nonce row r) = table.visited r := by
  obtain ⟨-, h⟩ | ⟨plaintexts, -, h⟩ | ⟨-, -, h⟩ := table.rewrite_cases cipher ring nonce row
  · rw [h, id_eq]
  · rw [h, table.visited_put]
  · rw [h, id_eq]

/-- A row that was rewritten is not rewritten again. -/
theorem rewrite_rewrite (row : ρ) :
    table.rewrite cipher ring nonce' (table.rewrite cipher ring nonce row row)
        (table.rewrite cipher ring nonce row row) =
      table.rewrite cipher ring nonce row row := by
  obtain ⟨hcurrent, h⟩ | ⟨plaintexts, -, h⟩ | ⟨hcurrent, hopen, h⟩ :=
    table.rewrite_cases cipher ring nonce row
  · rw [h, id_eq, rewrite, if_pos hcurrent, id_eq]
  · have hcurrent : table.Current ring
        (table.put (table.sealings cipher ring nonce row plaintexts) row) := by
      intro i
      rw [table.get_put]
      rfl
    rw [h, rewrite, if_pos hcurrent, id_eq]
  · rw [h, id_eq, rewrite, if_neg hcurrent, dif_neg hopen, id_eq]

theorem fst_resealStep : (table.resealStep cipher ring nonce st row).1 =
    updateWhere (fun r => table.key r = table.key row) (table.rewrite cipher ring nonce row) st.1 := by
  unfold resealStep rewrite
  split_ifs
  · simp [updateWhere]
  · rfl
  · simp [updateWhere]

theorem fst_foldl : (rows.foldl (table.resealStep cipher ring nonce) st).1 =
    rows.foldl (fun t row => updateWhere (fun r => table.key r = table.key row)
      (table.rewrite cipher ring nonce row) t) st.1 := by
  induction rows generalizing st with
  | nil => rfl
  | cons row rows ih => rw [List.foldl_cons, List.foldl_cons, ih, fst_resealStep]

/-- **The pass, row by row.** -/
theorem fst_resealWith (h : UniqueOn table.key stored) :
    (table.resealWith cipher ring nonce stored).1 =
      updateWhere table.visited (fun r => table.rewrite cipher ring nonce r r) stored := by
  unfold resealWith
  rw [fst_foldl, (h.filter table.visited).foldl_updateWhere key_rewrite h
    fun row hrow => (List.mem_filter.1 hrow).1]
  refine List.map_congr_left fun r hr => ?_
  have hvisited : table.key r ∈ (stored.filter table.visited).map table.key ↔ table.visited r = true := by
    constructor
    · intro hkey
      obtain ⟨r', hr', hkey⟩ := List.mem_map.1 hkey
      obtain ⟨hmem, hvisited⟩ := List.mem_filter.1 hr'
      rwa [← h.eq_of_key hmem hr hkey]
    · intro hvisited
      exact List.mem_map_of_mem (List.mem_filter.2 ⟨hr, hvisited⟩)
  simp only [hvisited]

theorem unique_resealWith (h : UniqueOn table.key stored) :
    UniqueOn table.key (table.resealWith cipher ring nonce stored).1 := by
  rw [fst_resealWith h]
  exact h.updateWhere fun r => key_rewrite r r

theorem failed_foldl (h : (rows.foldl (table.resealStep cipher ring nonce) st).2.failed = 0) :
    st.2.failed = 0 ∧ ∀ row ∈ rows, table.Current ring row ∨
      ∀ i, (table.opened cipher ring row i).isSome := by
  induction rows generalizing st with
  | nil => exact ⟨h, fun row hrow => absurd hrow List.not_mem_nil⟩
  | cons row rows ih =>
    obtain ⟨hstep, hrows⟩ := ih h
    unfold resealStep at hstep
    split_ifs at hstep with hcurrent hopen
    · exact ⟨hstep, List.forall_mem_cons.2 ⟨.inl hcurrent, hrows⟩⟩
    · exact ⟨hstep, List.forall_mem_cons.2 ⟨.inr hopen, hrows⟩⟩

/-- **Running it again changes nothing.** -/
theorem reseal_again (h : UniqueOn table.key stored) :
    (table.resealWith cipher ring nonce' (table.resealWith cipher ring nonce stored).1).1 =
      (table.resealWith cipher ring nonce stored).1 := by
  rw [fst_resealWith (unique_resealWith h), fst_resealWith h, updateWhere, updateWhere, List.map_map]
  refine List.map_congr_left fun r _ => ?_
  by_cases hvisited : table.visited r
  · simp only [Function.comp_apply, hvisited, if_true, visited_rewrite, rewrite_rewrite]
  · simp only [Function.comp_apply, hvisited, Bool.false_eq_true, if_false]

/-- The value after a pass. -/
theorem find_resealWith (h : UniqueOn table.key stored) (rowId : String) (i : ι) :
    table.find (table.resealWith cipher ring nonce stored).1 rowId i =
      (stored.find? fun r => table.key r = rowId).map fun r =>
        table.get (if table.visited r then table.rewrite cipher ring nonce r r else r) i := by
  unfold find
  rw [fst_resealWith h, find?_updateWhere (fun r => key_rewrite r r), Option.map_map]
  rfl

omit [Fintype ι] in
/-- The row of a value. -/
theorem find_eq_some (h : table.find stored rowId i = some value) :
    ∃ r, (stored.find? fun r => table.key r = rowId) = some r ∧ r ∈ stored ∧ table.key r = rowId ∧
      table.get r i = value := by
  obtain ⟨r, hfind, hvalue⟩ := Option.map_eq_some_iff.1 h
  exact ⟨r, hfind, List.mem_of_find?_eq_some hfind, by simpa using List.find?_some hfind, hvalue⟩

/-- A pass keeps a value, or seals what it opens to. -/
theorem find_cases (hunique : UniqueOn table.key stored) (h : table.find stored rowId i = some value) :
    ∃ value', table.find (table.resealWith cipher ring nonce stored).1 rowId i = some value' ∧
      (value' = value ∨ ∃ plaintext,
        ring.open cipher value (table.place rowId i).context = .ok plaintext ∧
        value' = ring.seal cipher (nonce (table.place rowId i)) plaintext (table.place rowId i).context) := by
  obtain ⟨r, hfind, -, rfl, rfl⟩ := find_eq_some h
  rw [find_resealWith hunique, hfind, Option.map_some]
  refine ⟨_, rfl, ?_⟩
  split_ifs
  · obtain ⟨-, hrow⟩ | ⟨plaintexts, hopened, hrow⟩ | ⟨-, -, hrow⟩ :=
      table.rewrite_cases cipher ring nonce r
    · exact .inl (by rw [hrow, id_eq])
    · refine .inr ⟨plaintexts i, opened_eq_some.1 (hopened i), ?_⟩
      rw [hrow, table.get_put]
      rfl
    · exact .inl (by rw [hrow, id_eq])
  · exact .inl rfl

/-- Where nothing failed, what was visited is under the active key. -/
theorem find_active (hunique : UniqueOn table.key stored)
    (hfailed : (table.resealWith cipher ring nonce stored).2.failed = 0)
    (hvisited : ∀ r ∈ stored, table.key r = rowId → table.visited r = true)
    (h : table.find (table.resealWith cipher ring nonce stored).1 rowId i = some value) :
    keyIdOf value = some ring.active := by
  rw [find_resealWith hunique] at h
  obtain ⟨r, hfind, rfl⟩ := Option.map_eq_some_iff.1 h
  have hr := List.mem_of_find?_eq_some hfind
  have hrow : table.visited r = true := hvisited r hr (by simpa using List.find?_some hfind)
  have hfine := (failed_foldl hfailed).2 r (List.mem_filter.2 ⟨hr, hrow⟩)
  rw [if_pos hrow]
  obtain ⟨hcurrent, hrow⟩ | ⟨plaintexts, -, hrow⟩ | ⟨hcurrent, hopen, -⟩ :=
    table.rewrite_cases cipher ring nonce r
  · rw [hrow, id_eq]
    exact hcurrent i
  · rw [hrow, table.get_put]
    rfl
  · exact (hfine.elim hcurrent hopen).elim

end SealedTable

/-! ## All tables -/

/-- The tables with sealed columns, and their primary keys. -/
@[ext]
structure Store where
  custody : List CustodyRow
  signingKey : List SigningKeyRow
  identityProvider : List ProviderRow
  custody_unique : UniqueOn custodyTable.key custody
  signingKey_unique : UniqueOn signingKeyTable.key signingKey
  identityProvider_unique : UniqueOn identityProviderTable.key identityProvider

namespace Store

variable {cipher : Cipher} {ring : KeyRing} {nonce nonce' : Place → Nonce} {store : Store}
  {place : Place} {value context plaintext : Bytes}

/-- `reseal_all_with`. -/
def resealAllWith (cipher : Cipher) (ring : KeyRing) (nonce : Place → Nonce) (store : Store) :
    Store × Db.ResealAll :=
  let custody := resealCustodyWith cipher ring nonce store.custody
  let signingKeys := resealSigningKeysWith cipher ring nonce store.signingKey
  let identityProviders := resealProvidersWith cipher ring nonce store.identityProvider
  (⟨custody.1, signingKeys.1, identityProviders.1,
      SealedTable.unique_resealWith store.custody_unique,
      SealedTable.unique_resealWith store.signingKey_unique,
      SealedTable.unique_resealWith store.identityProvider_unique⟩,
    ⟨custody.2, signingKeys.2, identityProviders.2⟩)

/-- The value of a place. -/
def at_ (store : Store) : Place → Option Bytes
  | .refresh id => custodyTable.find store.custody id .refresh
  | .access id => custodyTable.find store.custody id .access
  | .seed kid => signingKeyTable.find store.signingKey kid ()
  | .clientSecret id => identityProviderTable.find store.identityProvider id ()

/-- The secret of a deleted provider. -/
def Deleted (store : Store) : Place → Prop
  | .clientSecret id => ∃ row ∈ store.identityProvider, row.id = id ∧ row.deletedAt ≠ none
  | _ => False

theorem at_cases (cipher : Cipher) (ring : KeyRing) (nonce : Place → Nonce)
    (h : store.at_ place = some value) :
    ∃ value', (store.resealAllWith cipher ring nonce).1.at_ place = some value' ∧
      (value' = value ∨ ∃ plaintext, ring.open cipher value place.context = .ok plaintext ∧
        value' = ring.seal cipher (nonce place) plaintext place.context) := by
  cases place with
  | refresh id => exact SealedTable.find_cases store.custody_unique h
  | access id => exact SealedTable.find_cases store.custody_unique h
  | seed kid => exact SealedTable.find_cases store.signingKey_unique h
  | clientSecret id => exact SealedTable.find_cases store.identityProvider_unique h

/-- What opens opens afterwards, wherever it opens. -/
theorem at_opens (h : store.at_ place = some value)
    (hopen : ring.open cipher value context = .ok plaintext) :
    ∃ value', (store.resealAllWith cipher ring nonce).1.at_ place = some value' ∧
      ring.open cipher value' context = .ok plaintext := by
  obtain ⟨value', hvalue', rfl | ⟨plaintext', hopen', rfl⟩⟩ := at_cases cipher ring nonce h
  · exact ⟨value', hvalue', hopen⟩
  · obtain ⟨rfl, rfl⟩ := KeyRing.open_unique hopen' hopen
    exact ⟨_, hvalue', KeyRing.open_seal⟩

theorem at_unreadable (h : store.at_ place = some value)
    (hopen : ∀ plaintext, ring.open cipher value place.context ≠ .ok plaintext) :
    (store.resealAllWith cipher ring nonce).1.at_ place = some value := by
  obtain ⟨value', hvalue', rfl | ⟨plaintext, hopen', -⟩⟩ := at_cases cipher ring nonce h
  · exact hvalue'
  · exact absurd hopen' (hopen plaintext)

theorem resealAllWith_again :
    ((store.resealAllWith cipher ring nonce).1.resealAllWith cipher ring nonce').1 =
      (store.resealAllWith cipher ring nonce).1 :=
  Store.ext (SealedTable.reseal_again store.custody_unique)
    (SealedTable.reseal_again store.signingKey_unique)
    (SealedTable.reseal_again store.identityProvider_unique)

theorem at_active (hcustody : (store.resealAllWith cipher ring nonce).2.custody.failed = 0)
    (hsigning : (store.resealAllWith cipher ring nonce).2.signingKeys.failed = 0)
    (hproviders : (store.resealAllWith cipher ring nonce).2.identityProviders.failed = 0)
    (hlive : ¬store.Deleted place)
    (h : (store.resealAllWith cipher ring nonce).1.at_ place = some value) :
    keyIdOf value = some ring.active := by
  cases place with
  | refresh id => exact SealedTable.find_active store.custody_unique hcustody (fun _ _ _ => rfl) h
  | access id => exact SealedTable.find_active store.custody_unique hcustody (fun _ _ _ => rfl) h
  | seed kid => exact SealedTable.find_active store.signingKey_unique hsigning (fun _ _ _ => rfl) h
  | clientSecret id =>
    refine SealedTable.find_active store.identityProvider_unique hproviders (fun row hrow hid => ?_) h
    exact decide_eq_true (by_contra fun hdeleted => hlive ⟨row, hrow, hid, hdeleted⟩)

/-- **Resealing loses nothing.**  What opened opens to the same text in the same
    context, what did not open is as it was, and a second run changes nothing.
    Where nothing failed, the active key alone opens all that opened, but for
    the secret of a deleted provider, which no pass visits. -/
theorem reseal_loses_nothing (cipher : Cipher) (ring : KeyRing) (nonce nonce' : Place → Nonce)
    (store : Store) :
    let after := store.resealAllWith cipher ring nonce
    (∀ place value context plaintext, store.at_ place = some value →
      ring.open cipher value context = .ok plaintext →
      ∃ value', after.1.at_ place = some value' ∧
        ring.open cipher value' context = .ok plaintext) ∧
    (∀ place value, store.at_ place = some value →
      (∀ plaintext, ring.open cipher value place.context ≠ .ok plaintext) →
      after.1.at_ place = some value) ∧
    (after.1.resealAllWith cipher ring nonce').1 = after.1 ∧
    (after.2.custody.failed = 0 → after.2.signingKeys.failed = 0 →
      after.2.identityProviders.failed = 0 →
      ∀ place value context plaintext, store.at_ place = some value → ¬store.Deleted place →
        ring.open cipher value context = .ok plaintext →
        ∃ value', after.1.at_ place = some value' ∧
          ring.activeOnly.open cipher value' context = .ok plaintext) := by
  intro after
  refine ⟨fun _ _ _ _ => at_opens, fun _ _ => at_unreadable, resealAllWith_again, ?_⟩
  intro hcustody hsigning hproviders place value context plaintext hvalue hlive hopen
  obtain ⟨value', hvalue', hopen'⟩ := at_opens hvalue hopen
  have hactive := at_active hcustody hsigning hproviders hlive hvalue'
  exact ⟨value', hvalue', KeyRing.open_activeOnly hactive hopen'⟩

/-- The tokens of one custody, after a rotation. -/
theorem reseal_loses_nothing_rotated :
    let cipher := Aead.transcript 32 24
    let key : KeyBytes := ⟨List.replicate 32 7, rfl⟩
    let nonce : Nonce := ⟨List.replicate 24 0, rfl⟩
    let ring : KeyRing := ⟨2, fun id => if id = 1 ∨ id = 2 then some key else none, rfl⟩
    let tokens := fun place : Place => (KeyRing.single 1 key).seal cipher nonce [116] place.context
    let store : Store := ⟨[⟨"c", tokens (.refresh "c"), tokens (.access "c")⟩], [], [],
      List.nodup_singleton _, List.nodup_nil, List.nodup_nil⟩
    ∃ value, (store.resealAllWith cipher ring fun _ => nonce).1.at_ (.refresh "c") = some value ∧
      ring.activeOnly.open cipher value (Place.refresh "c").context = .ok [116] := by
  intro cipher key nonce ring tokens store
  have hfailed : (store.resealAllWith cipher ring fun _ => nonce).2.custody.failed = 0 := by
    decide +kernel
  exact (reseal_loses_nothing cipher ring (fun _ => nonce) (fun _ => nonce) store).2.2.2 hfailed rfl rfl
    (.refresh "c") _ _ _ rfl not_false (KeyRing.open_seal_iff.2 ⟨rfl, rfl, rfl⟩)

/-- A secret under an old key in the row of a deleted provider: no pass visits
    it, nothing fails, and the active key does not open it. -/
theorem reseal_misses_deleted :
    ∃ (cipher : Cipher) (ring : KeyRing) (nonce : Place → Nonce) (store : Store) (place : Place)
      (value : Bytes) (plaintext : Bytes),
      (store.resealAllWith cipher ring nonce).2 = ⟨⟨0, 0, 0⟩, ⟨0, 0, 0⟩, ⟨0, 0, 0⟩⟩ ∧
      store.at_ place = some value ∧ ring.open cipher value place.context = .ok plaintext ∧
      (store.resealAllWith cipher ring nonce).1.at_ place = some value ∧
      ∀ plaintext', ring.activeOnly.open cipher value place.context ≠ .ok plaintext' := by
  let cipher := Aead.transcript 32 24
  let key : KeyBytes := ⟨List.replicate 32 7, rfl⟩
  let nonce : Nonce := ⟨List.replicate 24 0, rfl⟩
  let ring : KeyRing := ⟨2, fun id => if id = 1 ∨ id = 2 then some key else none, rfl⟩
  let value := (KeyRing.single 1 key).seal cipher nonce [115] (Place.clientSecret "p").context
  let store : Store := ⟨[], [], [⟨"p", value, some ⟨0⟩⟩], List.nodup_nil, List.nodup_nil,
    List.nodup_singleton _⟩
  refine ⟨cipher, ring, fun _ => nonce, store, .clientSecret "p", value, [115], rfl, rfl,
    KeyRing.open_seal_iff.2 ⟨rfl, rfl, rfl⟩, rfl, ?_⟩
  intro plaintext' h
  obtain ⟨-, -, hkey⟩ := KeyRing.open_seal_iff.1 h
  cases hkey

end Store

end Crypto

end SessionBroker
