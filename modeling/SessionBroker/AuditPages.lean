/-
  Reading the audit record page by page (`list_audit`, `store/repo.rs` and
  `http/admin.rs`).

  * `AuditQuery.selects` is the `WHERE` of a query, its prefix a `LIKE` pattern
    (`like_escapeLike`);
  * `auditPage` is a page with its cursor, for a request that is authorised and
    a store that can be read; `followAudit` asks for page after page;
  * `Db.writer_grows`: whatever the writer does between two requests, rows that
    are new have new numbers.  With it `audit_pagination_exact` is the library's
    account of a client that follows the cursors.
-/
import SessionBroker.TierA
import SessionBroker.Lib.Pages
import Mathlib.Data.List.Range

namespace SessionBroker

open Pages Transaction

/-! ## Prefixes -/

/-- `str::replace` of one character. -/
def replaceChar (c : Char) (replacement s : List Char) : List Char :=
  s.flatMap fun x => if x = c then replacement else [x]

/-- `escape_like`. -/
def escapeLike (value : List Char) : List Char :=
  replaceChar '_' ['\\', '_'] (replaceChar '%' ['\\', '%'] (replaceChar '\\' ['\\', '\\'] value))

/-- `text LIKE pattern ESCAPE '\'`, which folds the case of ASCII letters. -/
def like : List Char → List Char → Bool
  | [], text => text.isEmpty
  | c :: pattern, text =>
    if c = '%' then text.tails.any (like pattern)
    else match text with
      | [] => false
      | x :: rest =>
        if c = '_' then like pattern rest
        else if c = '\\' then
          match pattern with
          | [] => false
          | d :: pattern => d.toLower = x.toLower && like pattern rest
        else c.toLower = x.toLower && like pattern rest

theorem replaceChar_append (c : Char) (replacement s t : List Char) :
    replaceChar c replacement (s ++ t) = replaceChar c replacement s ++ replaceChar c replacement t := by
  simp [replaceChar]

theorem escapeLike_cons (c : Char) (value : List Char) :
    escapeLike (c :: value) =
      (if c = '\\' ∨ c = '%' ∨ c = '_' then ['\\', c] else [c]) ++ escapeLike value := by
  have hcons (d : Char) (r : List Char) (s : List Char) (x : Char) :
      replaceChar d r (x :: s) = (if x = d then r else [x]) ++ replaceChar d r s := rfl
  unfold escapeLike
  rw [hcons, replaceChar_append, replaceChar_append]
  congr 1
  by_cases h₁ : c = '\\'
  · subst h₁
    decide
  by_cases h₂ : c = '%'
  · subst h₂
    decide
  by_cases h₃ : c = '_'
  · subst h₃
    decide
  · simp [replaceChar, h₁, h₂, h₃]

/-- Any rest will do. -/
theorem like_any (text : List Char) : like ['%'] text = true := by
  rw [like.eq_def]
  dsimp only
  rw [if_pos rfl, List.any_eq_true]
  exact ⟨[], by simp, rfl⟩

theorem like_nil {c : Char} (pattern : List Char) (h : c ≠ '%') : like (c :: pattern) [] = false := by
  rw [like.eq_def]
  exact if_neg h

/-- A character that stands for itself. -/
theorem like_cons {c : Char} (h : c ≠ '%' ∧ c ≠ '_' ∧ c ≠ '\\') (pattern : List Char) (x : Char)
    (rest : List Char) :
    like (c :: pattern) (x :: rest) = (c.toLower = x.toLower && like pattern rest) := by
  rw [like.eq_def]
  dsimp only
  rw [if_neg h.1, if_neg h.2.1, if_neg h.2.2]

theorem like_escaped (d : Char) (pattern : List Char) (x : Char) (rest : List Char) :
    like ('\\' :: d :: pattern) (x :: rest) = (d.toLower = x.toLower && like pattern rest) := by
  rw [like.eq_def]
  dsimp only
  rw [if_neg (by decide), if_neg (by decide), if_pos rfl]

/-- **A prefix that was escaped** is matched as a prefix, whatever it contains. -/
theorem like_escapeLike (value text : List Char) :
    like (escapeLike value ++ ['%']) text = true ↔
      value.map Char.toLower <+: text.map Char.toLower := by
  induction value generalizing text with
  | nil => simpa [escapeLike, replaceChar] using like_any text
  | cons c value ih =>
    rw [escapeLike_cons]
    cases text with
    | nil =>
      split_ifs with hc
      · simp [like_nil _ (show '\\' ≠ '%' by decide)]
      · rw [not_or, not_or] at hc
        simp [like_nil _ hc.2.1]
    | cons x rest =>
      split_ifs with hc
      · simp [like_escaped, ih, List.cons_prefix_cons]
      · rw [not_or, not_or] at hc
        simp [like_cons ⟨hc.2.1, hc.2.2, hc.1⟩, ih, List.cons_prefix_cons]

/-! ## The query -/

structure AuditQuery where
  since : Option Timestamp
  until_ : Option Timestamp
  actionPrefix : Option String
  subject : Option String
  outcome : Option String
  actorKind : Option String
  beforeSeq : Option ℤ
  limit : ℕ
deriving DecidableEq, Repr

/-- The `WHERE` of `list_audit`, but for the cursor. -/
def AuditQuery.selects (q : AuditQuery) (r : StoredAuditRow) : Bool :=
  q.since.all (fun t => t ≤ r.row.at_) && q.until_.all (fun t => r.row.at_ ≤ t) &&
    q.actionPrefix.all (fun v => like (escapeLike v.toList ++ ['%']) r.row.action.toList) &&
    q.subject.all (fun v => r.row.subject = some v) && q.outcome.all (fun v => r.row.outcome = v) &&
    q.actorKind.all (fun v => r.row.actorKind = v)

/-- `limit.clamp(1, 1000)`. -/
def AuditQuery.pageSize (q : AuditQuery) : ℕ := max 1 (min q.limit 1000)

def StoredAuditRow.key (r : StoredAuditRow) : ℤ := r.seq

/-- `list_audit`. -/
def Db.listAudit (db : Db) (q : AuditQuery) : List StoredAuditRow :=
  page StoredAuditRow.key q.selects q.pageSize q.beforeSeq db.audit

structure AuditStats where
  rows : ℕ
  oldestAt : Option Timestamp
  newestAt : Option Timestamp
  gaps : ℕ
deriving DecidableEq, Repr

/-- `audit_stats`. -/
def Db.auditStats (db : Db) : AuditStats where
  rows := db.audit.length
  oldestAt := (db.audit.map (·.row.at_)).min?
  newestAt := (db.audit.map (·.row.at_)).max?
  gaps := db.audit.countP fun r => r.row.action = "audit.gap"

/-! ## The handler -/

structure AuditParams where
  since : Option ℤ := none
  until_ : Option ℤ := none
  action : Option String := none
  subject : Option String := none
  outcome : Option String := none
  actorKind : Option String := none
  beforeSeq : Option ℤ := none
  limit : Option ℕ := none
  format : Option String := none
deriving DecidableEq, Repr

/-- The query the handler builds: an empty filter is none. -/
def AuditParams.query (params : AuditParams) : AuditQuery where
  since := params.since.map Timestamp.mk
  until_ := params.until_.map Timestamp.mk
  actionPrefix := params.action.filter fun v => !v.isEmpty
  subject := params.subject.filter fun v => !v.isEmpty
  outcome := params.outcome.filter fun v => !v.isEmpty
  actorKind := params.actorKind.filter fun v => !v.isEmpty
  beforeSeq := params.beforeSeq
  limit := params.limit.getD 200

structure AuditPage where
  rows : List StoredAuditRow
  nextBeforeSeq : Option ℤ
  retentionDays : ℕ
  stats : AuditStats
deriving DecidableEq, Repr

inductive AuditAnswer where
  | ndjson (rows : List StoredAuditRow)
  | envelope (auditPage : AuditPage)
deriving DecidableEq, Repr

/-- The handler of `/admin/audit`; an audit sink has a retention. -/
def listAudit (retentionDays : Option ℕ) (db : Db) (params : AuditParams) : AuditAnswer :=
  let rows := db.listAudit params.query
  let nextBeforeSeq := if params.query.pageSize ≤ rows.length then rows.getLast?.map (·.key) else none
  if params.format = some "ndjson" then .ndjson rows
  else .envelope ⟨rows, nextBeforeSeq, retentionDays.getD 0, db.auditStats⟩

/-- A request: the store it read, what it asked for, and the page. -/
structure AuditRequest where
  db : Db
  params : AuditParams
  answered : AuditPage

/-- A client that asks for page after page, each in the state the store is in by
    then, and whether it came to the end. -/
def followAudit (retentionDays : Option ℕ) : AuditParams → List Db → List AuditRequest × Bool
  | _, [] => ([], false)
  | params, db :: dbs =>
    match listAudit retentionDays db params with
    | .ndjson _ => ([], false)
    | .envelope auditPage =>
      match auditPage.nextBeforeSeq with
      | none => ([⟨db, params, auditPage⟩], true)
      | some seq =>
        let rest := followAudit retentionDays { params with beforeSeq := some seq } dbs
        (⟨db, params, auditPage⟩ :: rest.1, rest.2)

namespace AuditRequest

/-- The page of a row, if the row is there: it starts above the row and is the
    last or ends no higher. -/
def Covers (req : AuditRequest) (r : StoredAuditRow) : Prop :=
  below req.params.beforeSeq r.key = true ∧
    ∀ seq, req.answered.nextBeforeSeq = some seq → seq ≤ r.key

def request (req : AuditRequest) : Request StoredAuditRow ℤ :=
  ⟨req.params.beforeSeq, req.db.audit, req.answered.rows⟩

end AuditRequest

section
variable {retentionDays : Option ℕ} {params : AuditParams} {dbs : List Db}

theorem listAudit_envelope (hjson : params.format ≠ some "ndjson") (db : Db) :
    listAudit retentionDays db params = .envelope ⟨db.listAudit params.query,
      cursor StoredAuditRow.key params.query.pageSize (db.listAudit params.query),
      retentionDays.getD 0, db.auditStats⟩ := if_neg hjson

/-- The pages of a client are of the size of the first. -/
theorem followAudit_cursor (hjson : params.format ≠ some "ndjson") {req : AuditRequest}
    (h : req ∈ (followAudit retentionDays params dbs).1) :
    req.answered.nextBeforeSeq = cursor StoredAuditRow.key params.query.pageSize req.answered.rows := by
  induction dbs generalizing params with
  | nil => exact absurd h List.not_mem_nil
  | cons db dbs ih =>
    simp only [followAudit, listAudit_envelope hjson] at h
    split at h
    · rw [List.mem_singleton.1 h]
    · rename_i seq hseq
      rcases List.mem_cons.1 h with rfl | h
      · rfl
      · exact @ih { params with beforeSeq := some seq } hjson h

/-- **The client of the library**, with the filter and the size of the first
    request. -/
theorem followAudit_eq (hjson : params.format ≠ some "ndjson") :
    ((followAudit retentionDays params dbs).1.map AuditRequest.request,
        (followAudit retentionDays params dbs).2) =
      follow StoredAuditRow.key params.query.selects params.query.pageSize params.beforeSeq
        (dbs.map (·.audit)) := by
  induction dbs generalizing params with
  | nil => rfl
  | cons db dbs ih =>
    have hpage : page StoredAuditRow.key params.query.selects params.query.pageSize params.beforeSeq
        db.audit = db.listAudit params.query := rfl
    simp only [followAudit, listAudit_envelope hjson, List.map_cons, follow, hpage]
    cases hseq : cursor StoredAuditRow.key params.query.pageSize (db.listAudit params.query) with
    | none => rfl
    | some seq =>
      have hrest := Prod.mk.inj (@ih { params with beforeSeq := some seq } hjson)
      exact Prod.ext (congrArg (List.cons _) hrest.1) hrest.2

end

/-! ## What the writer does between two requests -/

/-- The audit table with the last number it handed out. -/
def Db.numbered (db : Db) : List StoredAuditRow × ℤ := (db.audit, db.auditSeq)

section
variable {ring : KeyRing} {db db' : Db}

theorem Db.insertAudit_grows (db : Db) (row : AuditRow) :
    Grows StoredAuditRow.key db.numbered (db.insertAudit row).numbered := by
  refine ⟨?_, fun r hr => ?_⟩
  · show (db.auditSeq : ℤ) ≤ (db.auditSeq + 1 : ℕ)
    omega
  · rcases List.mem_append.1 hr with hr | hr
    · exact Or.inl hr
    · refine Or.inr ?_
      rw [List.mem_singleton.1 hr]
      show (db.auditSeq : ℤ) < (db.auditSeq + 1 : ℕ)
      omega

theorem Db.applyAdmin_numbered {write : AdminWrite} {applied : Bool}
    (h : db.applyAdmin ring write = some (db', applied)) : db'.numbered = db.numbered := by
  have hu := Db.applyAdmin_untouched h
  simp only [Db.untouched, Prod.mk.injEq] at hu
  simp only [Db.numbered, hu]

/-- One command: new rows have new numbers. -/
theorem Db.apply_grows {cmd : Command} (h : db.apply ring cmd = some db') :
    Grows StoredAuditRow.key db.numbered db'.numbered := by
  cases cmd with
  | audit row =>
    cases h
    exact Db.insertAudit_grows db row
  | pruneAudit before =>
    cases h
    exact ⟨le_rfl, fun r hr => Or.inl (Table.mem_deleteWhere.1 hr).1⟩
  | admin write audit ack =>
    obtain ⟨r, hr, rfl⟩ := Option.map_eq_some_iff.1 h
    obtain ⟨⟨made, applied⟩, hm, rfl⟩ := Option.map_eq_some_iff.1 hr
    rw [← Db.applyAdmin_numbered hm]
    cases audit with
    | none => exact Grows.refl _
    | some row => exact Db.insertAudit_grows made _
  | session cmd =>
    obtain ⟨_, -, rfl⟩ := Option.map_eq_some_iff.1 h
    exact Grows.refl _
  | insertTxn row =>
    obtain ⟨_, -, rfl⟩ := Option.map_eq_some_iff.1 h
    exact Grows.refl _
  | custody write ack =>
    cases write with
    | insert row =>
      obtain ⟨_, -, rfl⟩ := Option.map_eq_some_iff.1 h
      exact Grows.refl _
    | success => cases h; exact Grows.refl _
    | failure => cases h; exact Grows.refl _
  | _ => cases h; exact Grows.refl _

/-- **Any batches**, whether they commit or not. -/
theorem writer_grows (ring : KeyRing) (db : Db) (batches : List Batch) :
    Grows StoredAuditRow.key db.numbered (WriterThread.run ring db batches).db.numbered := by
  refine WriterThread.run_db_invariant (P := fun db' => Grows StoredAuditRow.key db.numbered db'.numbered)
    (fun db₁ cmd db₂ hg ha => ?_) (Grows.refl _) batches
  unfold Db.attempt at ha
  split_ifs at ha
  exact hg.trans (Db.apply_grows ha)

end

/-! ## Every row, once -/

theorem uniqueOn_key {db : Db} (h : db.Integrity) : Table.UniqueOn StoredAuditRow.key db.audit := by
  have hseq : (db.audit.map (·.seq)).Nodup := h.auditSeq.imp Nat.ne_of_lt
  have hkey : db.audit.map StoredAuditRow.key = (db.audit.map (·.seq)).map (Nat.cast : ℕ → ℤ) := by
    rw [List.map_map]
    rfl
  rw [Table.UniqueOn, hkey]
  exact hseq.map Nat.cast_injective

theorem AuditRequest.covers_iff {retentionDays : Option ℕ} {params : AuditParams} {dbs : List Db}
    (hjson : params.format ≠ some "ndjson") {req : AuditRequest}
    (h : req ∈ (followAudit retentionDays params dbs).1) (r : StoredAuditRow) :
    req.Covers r ↔ req.request.Covers StoredAuditRow.key params.query.pageSize r.key := by
  unfold AuditRequest.Covers Request.Covers
  rw [followAudit_cursor hjson h]
  rfl

/-- Requests enough come to the end. -/
theorem followAudit_ends {ring : KeyRing} {store : ℕ → Store}
    (hstore : ∀ i, ∃ batches, (WriterThread.run ring (store i).1 batches).db = (store (i + 1)).1)
    {params : AuditParams} {k : ℕ}
    (hk : (ahead StoredAuditRow.key params.query.selects params.beforeSeq
      (store 0).1.audit).length < (k + 1) * params.query.pageSize) :
    (follow StoredAuditRow.key params.query.selects params.query.pageSize params.beforeSeq
      (((List.range (k + 1)).map fun i => (store i).1).map (·.audit))).2 = true := by
  have hstates : ((List.range (k + 1)).map fun i => (store i).1).map (·.audit) =
      ((store 0).1.numbered :: (List.range k).map fun i => (store (i + 1)).1.numbered).map
        Prod.fst := by
    rw [List.range_succ_eq_map, List.map_cons, List.map_cons, List.map_cons]
    simp only [List.map_map]
    rfl
  have hcons : ((store 0).1.numbered :: (List.range k).map fun i => (store (i + 1)).1.numbered) =
      (List.range (k + 1)).map fun i => (store i).1.numbered := by
    rw [List.range_succ_eq_map, List.map_cons, List.map_map]
    rfl
  have hmem : ∀ s ∈ (store 0).1.numbered :: (List.range k).map fun i => (store (i + 1)).1.numbered,
      ∃ i, s = (store i).1.numbered := by
    intro s hs
    rw [hcons] at hs
    obtain ⟨i, -, rfl⟩ := List.mem_map.1 hs
    exact ⟨i, rfl⟩
  rw [hstates]
  refine follow_ends ?_ (fun s hs => ?_) (fun s hs r hr => ?_) (by rwa [List.length_map, List.length_range])
  · rw [hcons, List.isChain_map, List.isChain_range_succ]
    intro i _
    obtain ⟨batches, hb⟩ := hstore i
    rw [Nat.succ_eq_add_one, ← hb]
    exact writer_grows ring _ batches
  · obtain ⟨i, rfl⟩ := hmem s hs
    exact uniqueOn_key (store i).2
  · obtain ⟨i, rfl⟩ := hmem s hs
    exact Int.ofNat_le.2 ((store i).2.auditLast r hr)

/-- **Audit pagination is exact.**  Whatever the writer does between the
    requests, following the cursors ends; the rows come in descending order, no
    row twice; and every row is on its page if it is there when that is read. -/
theorem audit_pagination_exact (ring : KeyRing) (store : ℕ → Store)
    (hstore : ∀ i, ∃ batches, (WriterThread.run ring (store i).1 batches).db = (store (i + 1)).1)
    (retentionDays : Option ℕ) {params : AuditParams} (hjson : params.format ≠ some "ndjson") :
    ∃ n, n ≤ (ahead StoredAuditRow.key params.query.selects params.beforeSeq
          (store 0).1.audit).length / params.query.pageSize + 1 ∧
      let r := followAudit retentionDays params ((List.range n).map fun i => (store i).1)
      r.2 = true ∧
      (r.1.flatMap (·.answered.rows)).Pairwise (fun a b => b.seq < a.seq) ∧
      (∀ req ∈ r.1, ∀ row ∈ req.answered.rows,
        row ∈ req.db.audit ∧ params.query.selects row = true ∧ below params.beforeSeq row.key = true) ∧
      ∀ row, params.query.selects row = true → below params.beforeSeq row.key = true →
        r.1.Pairwise (fun req req' => ¬ (req.Covers row ∧ req'.Covers row)) ∧
        ∃ req ∈ r.1, req.Covers row ∧
          (row ∈ req.db.audit → (r.1.flatMap (·.answered.rows)).count row = 1) := by
  have hsize : 0 < params.query.pageSize := Nat.lt_of_lt_of_le Nat.zero_lt_one (Nat.le_max_left ..)
  refine ⟨_, le_rfl, ?_⟩
  intro r
  have hread : (r.1.map AuditRequest.request, r.2) = _ := followAudit_eq hjson
  obtain ⟨hrequests, hended⟩ := Prod.mk.inj hread
  have hu : ∀ t ∈ ((List.range ((ahead StoredAuditRow.key params.query.selects params.beforeSeq
      (store 0).1.audit).length / params.query.pageSize + 1)).map fun i => (store i).1).map (·.audit),
      Table.UniqueOn StoredAuditRow.key t := by
    intro t ht
    simp only [List.map_map, List.mem_map] at ht
    obtain ⟨i, -, rfl⟩ := ht
    exact uniqueOn_key (store i).2
  have hlen := Nat.lt_mul_div_succ (ahead StoredAuditRow.key params.query.selects params.beforeSeq
    (store 0).1.audit).length hsize
  rw [Nat.mul_comm] at hlen
  have hend := followAudit_ends hstore hlen
  have hrows : rowsRead (r.1.map AuditRequest.request) = r.1.flatMap (·.answered.rows) :=
    List.flatMap_map ..
  have hdesc : (r.1.flatMap (·.answered.rows)).Pairwise fun a b => b.seq < a.seq := by
    rw [← hrows, hrequests]
    exact (follow_descending hu).imp fun h => Int.ofNat_lt.1 h
  refine ⟨hended.trans hend, hdesc, fun req hreq row hrow => ?_, fun row hp hb => ⟨?_, ?_⟩⟩
  · obtain ⟨hbelow, -, hpage⟩ := follow_below (hrequests ▸ List.mem_map_of_mem hreq)
    replace hrow : row ∈ req.request.rows := hrow
    rw [hpage] at hrow
    obtain ⟨hmem, hp, hb⟩ := mem_page hrow
    exact ⟨hmem, hp, hbelow _ hb⟩
  · have hdis : (r.1.map AuditRequest.request).Pairwise fun req req' =>
        ¬ (req.Covers StoredAuditRow.key params.query.pageSize row.key ∧
          req'.Covers StoredAuditRow.key params.query.pageSize row.key) := by
      rw [hrequests]
      exact follow_disjoint row.key
    refine (List.pairwise_map.1 hdis).imp_of_mem fun hreq hreq' hno => ?_
    rwa [AuditRequest.covers_iff hjson hreq, AuditRequest.covers_iff hjson hreq']
  · obtain ⟨req', hreq', hcov, hwhole⟩ := follow_page hu hsize hend hb
    rw [← hrequests] at hreq'
    obtain ⟨req, hreq, rfl⟩ := List.mem_map.1 hreq'
    refine ⟨req, hreq, (AuditRequest.covers_iff hjson hreq row).2 hcov, fun hrow => ?_⟩
    have hnodup : (r.1.flatMap (·.answered.rows)).Nodup :=
      hdesc.imp fun h => by rintro rfl; exact lt_irrefl _ h
    exact List.count_eq_one_of_mem hnodup (List.mem_flatMap.2 ⟨req, hreq, hwhole row hrow hp rfl⟩)

/-- A row of no one in particular. -/
def plainRow (at_ : Timestamp) : AuditRow :=
  ⟨at_, "session.created", "success", "system", none, none, none, none, none, none, none, none⟩

/-- Two rows, and one more between any two requests. -/
def growing : ℕ → Store
  | 0 =>
    let db := Db.fresh ⟨0⟩
    ⟨(db.insertAudit (plainRow ⟨1⟩)).insertAudit (plainRow ⟨2⟩),
      ((Db.integrity_fresh ⟨0⟩).insertAudit _).insertAudit _⟩
  | i + 1 => ⟨(WriterThread.run ⟨1, [1]⟩ (growing i).1 [.ofCommands [.audit (plainRow ⟨3⟩)]]).db,
      WriterThread.run_db_invariant (fun _ _ _ h ha => h.attempt ha) (growing i).2 _⟩

/-- Read one at a time, it takes three requests at most. -/
theorem audit_pagination_exact_growing : ∃ n ≤ 3,
    (followAudit none { limit := some 1 } ((List.range n).map fun i => (growing i).1)).2 = true := by
  obtain ⟨n, hn, hend, -⟩ := @audit_pagination_exact ⟨1, [1]⟩ growing (fun i => ⟨_, rfl⟩) none
    { limit := some 1 } (by decide)
  exact ⟨n, hn.trans (by decide), hend⟩

end SessionBroker
