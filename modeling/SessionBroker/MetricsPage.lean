/-
  The page of the metrics (`render` of `telemetry/metrics.rs`).

  * `counterFamily`, `histogramFamily` and the others give the lines that the
    source writes, `render` the page;
  * `FamilyName.series`: the name and the labels of a family;
  * `page_reads_back`: what a reader of the format finds on the page, once the
    calls are over, is what was counted, whatever the labels hold.

  How an `f64` is printed is a parameter, and so is the queue depth.
-/
import SessionBroker.AuditPages
import SessionBroker.Metrics
import SessionBroker.Text
import SessionBroker.Lib.Exposition
import Mathlib.Data.List.Lex
import Mathlib.Data.String.Basic

namespace SessionBroker.Telemetry

open Runs Exposition

/-! ## The page -/

structure GaugeSnapshot where
  sessionsLive : ℕ := 0
  generationsLive : ℕ := 0
  eventSubscribers : ℕ := 0
  custodyOk : ℕ := 0
  custodyDegraded : ℕ := 0
  custodyDead : ℕ := 0
  auditRows : ℕ := 0
  auditOldestSeconds : ℕ := 0
  logLevelOverrideActive : Bool := false
deriving DecidableEq, Repr

/-- How numbers are printed that are cast to an `f64`: whole ones, and
    microseconds as seconds. -/
structure Prints where
  whole : ℤ → String
  seconds : UInt64 → String

/-- `escape`. -/
def escape (value : String) : String :=
  .ofList (replaceChar '\n' ['\\', 'n'] (replaceChar '"' ['\\', '"'] (replaceChar '\\' ['\\', '\\'] value.toList)))

def labelPairs (names values : List String) : List String :=
  (names.zip values).map fun (n, v) => n ++ "=\"" ++ escape v ++ "\""

/-- `label_set`. -/
def labelSet (names values : List String) : String :=
  if names.isEmpty then "" else "\x7b" ++ String.intercalate "," (labelPairs names values) ++ "\x7d"

def heading (name help kind : String) : List String :=
  ["# HELP " ++ name ++ " " ++ help, "# TYPE " ++ name ++ " " ++ kind]

def counter (name help : String) (value : UInt64) : List String :=
  heading name help "counter" ++ [name ++ " " ++ toString value.toNat]

def gauge (prints : Prints) (name help : String) (value : ℤ) : List String :=
  heading name help "gauge" ++ [name ++ " " ++ prints.whole value]

namespace Metrics

/-- `Family::snapshot`. -/
def snapshot (m : Metrics) (family : FamilyName) : List (List String × ℕ) :=
  (m.inner family).mergeSort fun a b => a.1 ≤ b.1

/-- `counter_family`. -/
def counterFamily (m : Metrics) (name help : String) (labels : List String) (family : FamilyName) : List String :=
  heading name help "counter" ++ (m.snapshot family).map fun (key, arc) =>
    name ++ labelSet labels key ++ " " ++ toString (m.cells (.arc arc) .value).toNat

/-- `write_histogram_body`. -/
def writeHistogramBody (m : Metrics) (prints : Prints) (name base : String) (labels key : List String)
    (cell : Cell) : List String :=
  (latencyBuckets.zipIdx.map fun (bound, i) =>
    name ++ "_bucket\x7b" ++ String.intercalate "," (labelPairs labels key ++ ["le=\"" ++ bound.2 ++ "\""]) ++ "\x7d " ++
      toString (m.cells cell (.bucket i)).toNat) ++
  [name ++ "_bucket\x7b" ++ String.intercalate "," (labelPairs labels key ++ ["le=\"+Inf\""]) ++ "\x7d " ++
      toString (m.cells cell .count).toNat,
    name ++ "_sum" ++ base ++ " " ++ prints.seconds (m.cells cell .sumMicros),
    name ++ "_count" ++ base ++ " " ++ toString (m.cells cell .count).toNat]

/-- `histogram_family`. -/
def histogramFamily (m : Metrics) (prints : Prints) (name help : String) (labels : List String)
    (family : FamilyName) : List String :=
  heading name help "histogram" ++ (m.snapshot family).flatMap fun (key, arc) =>
    m.writeHistogramBody prints name (labelSet labels key) labels key (.arc arc)

/-- `histogram`. -/
def histogram (m : Metrics) (prints : Prints) (name help : String) (cell : Cell) : List String :=
  heading name help "histogram" ++ m.writeHistogramBody prints name "" [] [] cell

/-- The lines of `render`. -/
def render (m : Metrics) (prints : Prints) (queueDepth : ℤ) (gauges : GaugeSnapshot) : List String :=
  ["# HELP broker_build_info Build metadata.",
    "# TYPE broker_build_info gauge",
    "broker_build_info\x7bversion=\"0.1.0\"\x7d 1"] ++
  m.counterFamily "broker_http_requests_total" "HTTP requests by lane, matched route pattern and status."
    ["lane", "route", "status"] .httpRequests ++
  m.histogramFamily prints "broker_http_request_duration_seconds"
    "HTTP handler latency by lane and matched route pattern." ["lane", "route"] .httpDuration ++
  m.counterFamily "broker_authz_decisions_total"
    "Edge authorisation decisions. This lane is on every platform request."
    ["decision", "reason"] .authzDecisions ++
  m.counterFamily "broker_session_refresh_total"
    "Session refresh outcomes. 'coalesced' is non-invalidating rotation working."
    ["outcome"] .sessionRefresh ++
  m.counterFamily "broker_token_exchanges_total" "Upstream token exchanges on /internal/token."
    ["outcome"] .tokenExchanges ++
  m.counterFamily "broker_tokens_issued_total" "Tokens signed by the issuer, and refusals to sign one."
    ["kind", "outcome"] .tokensIssued ++
  m.counterFamily "broker_session_anomalies_total"
    "INV-6a signals. Signal, not revocation — a nonzero rate is worth looking at."
    ["kind"] .sessionAnomalies ++
  m.counterFamily "broker_keepalive_refresh_total" "Background upstream-token renewals."
    ["outcome"] .keepaliveRefresh ++
  m.histogram prints "broker_keepalive_upstream_duration_seconds"
    "Time spent calling the upstream IdP. The only histogram here that measures the IdP." .keepaliveDuration ++
  m.counterFamily "broker_rate_limited_total" "Requests refused by the rate limiter, by lane and bucket."
    ["lane", "bucket"] .rateLimited ++
  m.counterFamily "broker_audit_recorded_total" "Audit rows written, by tier." ["tier"] .auditRecorded ++
  gauge prints "broker_sessions_live" "Live sessions." gauges.sessionsLive ++
  gauge prints "broker_generations_live"
    "Live cookie generations across all sessions (bounded by MAX_LIVE_GENS per session)."
    gauges.generationsLive ++
  gauge prints "broker_session_events_subscribers" "Open /session/events SSE streams." gauges.eventSubscribers ++
  ["# HELP broker_custody Upstream grants by health.",
    "# TYPE broker_custody gauge",
    "broker_custody\x7bstatus=\"ok\"\x7d " ++ toString gauges.custodyOk,
    "broker_custody\x7bstatus=\"degraded\"\x7d " ++ toString gauges.custodyDegraded,
    "broker_custody\x7bstatus=\"dead\"\x7d " ++ toString gauges.custodyDead] ++
  counter "broker_audit_dropped_total"
    "Tier-B audit events dropped at the queue bound. NONZERO MEANS THE RECORD HAS A HOLE."
    (m.cells .auditDropped .value) ++
  counter "broker_audit_failed_total"
    "Tier-A audit writes that failed, each of which refused an admin operation."
    (m.cells .auditFailed .value) ++
  gauge prints "broker_audit_queue_depth" "Tier-B audit events enqueued and not yet committed." queueDepth ++
  gauge prints "broker_audit_rows" "Rows in the retention window." gauges.auditRows ++
  gauge prints "broker_audit_oldest_seconds" "Age of the oldest retained audit row." gauges.auditOldestSeconds ++
  gauge prints "broker_log_level_override_active" "1 while a temporary verbosity override is in force."
    gauges.logLevelOverrideActive.toNat

end Metrics

/-! ## What is written -/

/-- The name of a family, and of its labels. -/
def FamilyName.series : FamilyName → String × List String
  | httpRequests => ("broker_http_requests_total", ["lane", "route", "status"])
  | httpDuration => ("broker_http_request_duration_seconds", ["lane", "route"])
  | authzDecisions => ("broker_authz_decisions_total", ["decision", "reason"])
  | sessionRefresh => ("broker_session_refresh_total", ["outcome"])
  | tokenExchanges => ("broker_token_exchanges_total", ["outcome"])
  | tokensIssued => ("broker_tokens_issued_total", ["kind", "outcome"])
  | sessionAnomalies => ("broker_session_anomalies_total", ["kind"])
  | keepaliveRefresh => ("broker_keepalive_refresh_total", ["outcome"])
  | rateLimited => ("broker_rate_limited_total", ["lane", "bucket"])
  | auditRecorded => ("broker_audit_recorded_total", ["tier"])

/-- No number is printed with the end of a line in it. -/
structure Prints.OneLine (prints : Prints) : Prop where
  whole : ∀ n, '\n' ∉ (prints.whole n).toList
  seconds : ∀ n, '\n' ∉ (prints.seconds n).toList

theorem escape_toList (value : String) : (escape value).toList = escaped value.toList := by
  rw [escape, String.toList_ofList]
  induction value.toList with
  | nil => rfl
  | cons c value ih =>
    have hcons (d : Char) (r s : List Char) (x : Char) :
        replaceChar d r (x :: s) = (if x = d then r else [x]) ++ replaceChar d r s := rfl
    rw [hcons, replaceChar_append, replaceChar_append, ih, escaped, escaped, List.flatMap_cons]
    congr 1
    by_cases hslash : c = '\\'
    · subst hslash
      decide
    by_cases hquote : c = '"'
    · subst hquote
      decide
    by_cases hline : c = '\n'
    · subst hline
      decide
    · simp [replaceChar, escapeChar, hslash, hquote, hline]

theorem labelPairs_text (names values : List String) :
    (labelPairs names values).map String.toList = (names.zip values).map labelText := by
  unfold labelPairs
  rw [List.map_map]
  refine List.map_congr_left fun label _ => ?_
  simp [labelText, escape_toList]

theorem newline_not_mem_nat (n : ℕ) : '\n' ∉ (toString n).toList := by
  intro hmem
  have := isDigit_toString hmem
  revert this
  decide

theorem labelSet_toList {names values : List String} (h : names = [] ∨ values ≠ []) :
    (labelSet names values).toList =
      if names.zip values = [] then [] else '{' :: (labelsText (names.zip values) ++ ['}']) := by
  unfold labelSet
  cases names with
  | nil => simp
  | cons n names =>
    have hne : (n :: names).zip values ≠ [] := by
      cases values with
      | nil => simp at h
      | cons v values => simp
    rw [if_neg hne]
    simp [labelPairs_text, labelsText]

/-- What a source name has to be. -/
structure Fit (name : String) (labels : List String) : Prop where
  plain : Plain name
  ne_nil : name ≠ ""
  labels : ∀ label ∈ labels, Plain label

section
variable {name help kind value : String} {labels key : List String} {prints : Prints} {m : Metrics}

theorem Fit.good (h : Fit name labels) (values : List String) (hvalue : '\n' ∉ value.toList) :
    Sample.Good ⟨name, labels.zip values, value⟩ where
  name := h.plain
  ne_nil := h.ne_nil
  labels _ hlabel := h.labels _ (List.of_mem_zip hlabel).1
  value := hvalue

theorem written_heading (hname : Plain name) (hhelp : '\n' ∉ help.toList) (hkind : '\n' ∉ kind.toList) :
    Written (heading name help kind) [] := by
  have hname' : '\n' ∉ name.toList := fun hmem => (hname _ hmem).2.2.2.1 rfl
  exact .comment (by simp) (by simp [hname', hhelp]) (.comment (by simp) (by simp [hname', hkind]) .nil)

/-- A sample without labels, or with those of `label_set`. -/
theorem written_sample (h : Fit name labels) (hkey : labels = [] ∨ key ≠ []) (hvalue : '\n' ∉ value.toList) :
    Written [name ++ labelSet labels key ++ " " ++ value] [⟨name, labels.zip key, value⟩] := by
  refine .sample (h.good key hvalue) ?_ .nil
  simp [labelSet_toList hkey, line]

theorem written_plain (h : Fit name []) (hvalue : '\n' ∉ value.toList) :
    Written [name ++ " " ++ value] [⟨name, [], value⟩] :=
  .sample (h.good [] hvalue) (by simp [line]) .nil

/-- The samples of a counter family. -/
def Metrics.familySamples (m : Metrics) (name : String) (labels : List String) (family : FamilyName) : List Sample :=
  (m.snapshot family).map fun (key, arc) =>
    ⟨name, labels.zip key, toString (m.cells (.arc arc) .value).toNat⟩

/-- Every key of a family has a value for every label. -/
def Metrics.Keyed (m : Metrics) : Prop :=
  ∀ family, ∀ row ∈ m.inner family, row.1.length = family.series.2.length

theorem Metrics.Keyed.ne_nil (hm : m.Keyed) {family : FamilyName} {row : List String × ℕ}
    (hrow : row ∈ m.snapshot family) : row.1 ≠ [] := by
  intro heq
  have hlength := hm family row (List.mem_mergeSort.1 hrow)
  rw [heq] at hlength
  cases family <;> cases hlength

theorem written_counterFamily (hm : m.Keyed) (h : Fit name labels) (hhelp : '\n' ∉ help.toList) (family : FamilyName) :
    Written (m.counterFamily name help labels family) (m.familySamples name labels family) := by
  refine (written_heading h.plain hhelp (by decide)).append (.map fun row hrow => ?_)
  exact written_sample h (Or.inr (hm.ne_nil hrow)) (newline_not_mem_nat _)

/-- The name of a part of a histogram. -/
theorem Fit.suffix (h : Fit name labels) (part : String) (hpart : Plain part) : Fit (name ++ part) labels where
  plain c hc := by
    rw [String.toList_append, List.mem_append] at hc
    exact hc.elim (h.plain c) (hpart c)
  ne_nil heq := h.ne_nil (String.append_eq_empty_iff.1 heq).1
  labels := h.labels

/-- A sample of a bucket. -/
theorem written_bucket (h : Fit name labels) (key : List String) {le : String} (hle : escaped le.toList = le.toList)
    (hvalue : '\n' ∉ value.toList) :
    Written [name ++ "_bucket\x7b" ++ String.intercalate "," (labelPairs labels key ++ ["le=\"" ++ le ++ "\""]) ++
      "\x7d " ++ value] [⟨name ++ "_bucket", labels.zip key ++ [("le", le)], value⟩] := by
  have hbucket := h.suffix "_bucket" (by decide)
  have htexts : (labelPairs labels key ++ ["le=\"" ++ le ++ "\""]).map String.toList =
      (labels.zip key ++ [("le", le)]).map labelText := by
    rw [List.map_append, List.map_append, labelPairs_text]
    simp [labelText, hle]
  refine .sample ⟨hbucket.plain, hbucket.ne_nil, fun label hlabel => ?_, hvalue⟩ ?_ .nil
  · rcases List.mem_append.1 hlabel with hlabel | hlabel
    · exact h.labels _ (List.of_mem_zip hlabel).1
    · obtain rfl := List.mem_singleton.1 hlabel
      exact (by decide : Plain "le")
  · simp only [String.toList_append, String.toList_intercalate, htexts, line]
    simp [labelsText]

/-- The samples of a histogram. -/
def Metrics.histogramSamples (m : Metrics) (prints : Prints) (name : String) (labels key : List String)
    (cell : Cell) : List Sample :=
  (latencyBuckets.zipIdx.map fun (bound, i) =>
    ⟨name ++ "_bucket", labels.zip key ++ [("le", bound.2)], toString (m.cells cell (.bucket i)).toNat⟩) ++
  [⟨name ++ "_bucket", labels.zip key ++ [("le", "+Inf")], toString (m.cells cell .count).toNat⟩,
    ⟨name ++ "_sum", labels.zip key, prints.seconds (m.cells cell .sumMicros)⟩,
    ⟨name ++ "_count", labels.zip key, toString (m.cells cell .count).toNat⟩]

theorem latencyBuckets_escaped : ∀ bound ∈ latencyBuckets, escaped bound.2.toList = bound.2.toList := by
  decide

theorem written_histogramBody (hprints : prints.OneLine) (h : Fit name labels) (hkey : labels = [] ∨ key ≠ [])
    (cell : Cell) :
    Written (m.writeHistogramBody prints name (labelSet labels key) labels key cell)
      (m.histogramSamples prints name labels key cell) := by
  have hbuckets : ∀ row ∈ latencyBuckets.zipIdx, Written _ _ := fun row hrow =>
    written_bucket h key (latencyBuckets_escaped _ (List.fst_mem_of_mem_zipIdx hrow))
      (newline_not_mem_nat (m.cells cell (.bucket row.2)).toNat)
  have hinf := written_bucket h key (by decide : escaped "+Inf".toList = "+Inf".toList)
    (newline_not_mem_nat (m.cells cell .count).toNat)
  have hsum := written_sample (h.suffix "_sum" (by decide)) hkey (hprints.seconds (m.cells cell .sumMicros))
  have hcount := written_sample (h.suffix "_count" (by decide)) hkey
    (newline_not_mem_nat (m.cells cell .count).toNat)
  exact (Written.map hbuckets).append (hinf.append (hsum.append hcount))

theorem written_histogramFamily (hprints : prints.OneLine) (hm : m.Keyed) (h : Fit name labels)
    (hhelp : '\n' ∉ help.toList) (family : FamilyName) :
    Written (m.histogramFamily prints name help labels family)
      ((m.snapshot family).flatMap fun row => m.histogramSamples prints name labels row.1 (.arc row.2)) := by
  refine (written_heading h.plain hhelp (by decide)).append (.flatMap fun row hrow => ?_)
  exact written_histogramBody hprints h (Or.inr (hm.ne_nil hrow)) (.arc row.2)

theorem written_histogram (hprints : prints.OneLine) (h : Fit name []) (hhelp : '\n' ∉ help.toList) (cell : Cell) :
    Written (m.histogram prints name help cell) (m.histogramSamples prints name [] [] cell) :=
  (written_heading h.plain hhelp (by decide)).append (written_histogramBody hprints h (Or.inl rfl) cell)

theorem written_counter (h : Fit name []) (hhelp : '\n' ∉ help.toList) (value : UInt64) :
    Written (counter name help value) [⟨name, [], toString value.toNat⟩] :=
  (written_heading h.plain hhelp (by decide)).append (written_plain h (newline_not_mem_nat _))

theorem written_gauge (hprints : prints.OneLine) (h : Fit name []) (hhelp : '\n' ∉ help.toList) (value : ℤ) :
    Written (gauge prints name help value) [⟨name, [], prints.whole value⟩] :=
  (written_heading h.plain hhelp (by decide)).append (written_plain h (hprints.whole value))

theorem name_familySamples (family : FamilyName) : ∀ s ∈ m.familySamples name labels family, s.name ∈ [name] := by
  intro s hs
  obtain ⟨row, -, rfl⟩ := List.mem_map.1 hs
  simp

theorem name_histogramSamples (cell : Cell) : ∀ s ∈ m.histogramSamples prints name labels key cell,
    s.name ∈ [name ++ "_bucket", name ++ "_sum", name ++ "_count"] := by
  intro s hs
  rcases List.mem_append.1 hs with hs | hs
  · obtain ⟨row, -, rfl⟩ := List.mem_map.1 hs
    simp
  · simp only [List.mem_cons, List.not_mem_nil, or_false] at hs
    rcases hs with rfl | rfl | rfl <;> simp

end

theorem written_build_info :
    Written ["# HELP broker_build_info Build metadata.", "# TYPE broker_build_info gauge",
      "broker_build_info\x7bversion=\"0.1.0\"\x7d 1"] [⟨"broker_build_info", [("version", "0.1.0")], "1"⟩] := by
  refine .comment (by simp) (by simp) (.comment (by simp) (by simp) (.sample ⟨by decide, by simp, ?_, by decide⟩ ?_ .nil))
  · simp
    decide
  · decide

theorem written_custody (gauges : GaugeSnapshot) :
    Written ["# HELP broker_custody Upstream grants by health.", "# TYPE broker_custody gauge",
      "broker_custody\x7bstatus=\"ok\"\x7d " ++ toString gauges.custodyOk,
      "broker_custody\x7bstatus=\"degraded\"\x7d " ++ toString gauges.custodyDegraded,
      "broker_custody\x7bstatus=\"dead\"\x7d " ++ toString gauges.custodyDead]
    [⟨"broker_custody", [("status", "ok")], toString gauges.custodyOk⟩,
      ⟨"broker_custody", [("status", "degraded")], toString gauges.custodyDegraded⟩,
      ⟨"broker_custody", [("status", "dead")], toString gauges.custodyDead⟩] := by
  have hgood : ∀ status : String, ∀ n : ℕ, Sample.Good ⟨"broker_custody", [("status", status)], toString n⟩ := by
    intro status n
    refine ⟨plain_ofList rfl, by simp, fun label hlabel => ?_, newline_not_mem_nat n⟩
    obtain rfl := List.mem_singleton.1 hlabel
    exact (by decide : Plain "status")
  refine .comment (by simp) (by simp) (.comment (by simp) (by simp) (.sample (hgood _ _) ?_ (.sample (hgood _ _) ?_
    (.sample (hgood _ _) ?_ .nil))))
  all_goals simp [line, labelsText, labelText, escaped, escapeChar]

/-- The page in blocks, each with its names. -/
def Metrics.blocks (m : Metrics) (prints : Prints) (queueDepth : ℤ) (gauges : GaugeSnapshot) :
    List (List String × List Sample) :=
  let family := fun f : FamilyName => ([f.series.1], m.familySamples f.series.1 f.series.2 f)
  let parts := fun name => [name ++ "_bucket", name ++ "_sum", name ++ "_count"]
  let one := fun (name value : String) => ([name], [⟨name, [], value⟩])
  [(["broker_build_info"], [⟨"broker_build_info", [("version", "0.1.0")], "1"⟩]),
    family .httpRequests,
    (parts FamilyName.httpDuration.series.1, (m.snapshot .httpDuration).flatMap fun row =>
      m.histogramSamples prints FamilyName.httpDuration.series.1 FamilyName.httpDuration.series.2 row.1 (.arc row.2)),
    family .authzDecisions, family .sessionRefresh, family .tokenExchanges, family .tokensIssued,
    family .sessionAnomalies, family .keepaliveRefresh,
    (parts "broker_keepalive_upstream_duration_seconds",
      m.histogramSamples prints "broker_keepalive_upstream_duration_seconds" [] [] .keepaliveDuration),
    family .rateLimited, family .auditRecorded,
    one "broker_sessions_live" (prints.whole gauges.sessionsLive),
    one "broker_generations_live" (prints.whole gauges.generationsLive),
    one "broker_session_events_subscribers" (prints.whole gauges.eventSubscribers),
    (["broker_custody"],
      [⟨"broker_custody", [("status", "ok")], toString gauges.custodyOk⟩,
        ⟨"broker_custody", [("status", "degraded")], toString gauges.custodyDegraded⟩,
        ⟨"broker_custody", [("status", "dead")], toString gauges.custodyDead⟩]),
    one "broker_audit_dropped_total" (toString (m.cells .auditDropped .value).toNat),
    one "broker_audit_failed_total" (toString (m.cells .auditFailed .value).toNat),
    one "broker_audit_queue_depth" (prints.whole queueDepth),
    one "broker_audit_rows" (prints.whole gauges.auditRows),
    one "broker_audit_oldest_seconds" (prints.whole gauges.auditOldestSeconds),
    one "broker_log_level_override_active" (prints.whole gauges.logLevelOverrideActive.toNat)]

theorem fit_series (family : FamilyName) : Fit family.series.1 family.series.2 := by
  have hlabels : ∀ label ∈ family.series.2, Plain label := by
    cases family <;> decide
  refine ⟨?_, by cases family <;> simp [FamilyName.series], hlabels⟩
  cases family <;> exact plain_ofList rfl

/-- The names that stand alone. -/
def plainNames : List String :=
  ["broker_keepalive_upstream_duration_seconds", "broker_sessions_live", "broker_generations_live",
    "broker_session_events_subscribers", "broker_audit_dropped_total", "broker_audit_failed_total",
    "broker_audit_queue_depth", "broker_audit_rows", "broker_audit_oldest_seconds",
    "broker_log_level_override_active"]

theorem fit_plain : ∀ name ∈ plainNames, Fit name [] := by
  have hplain : ∀ name ∈ plainNames, Plain name := by
    unfold plainNames
    simp only [List.forall_mem_cons]
    refine ⟨?_, ?_, ?_, ?_, ?_, ?_, ?_, ?_, ?_, ?_, by simp⟩ <;> exact plain_ofList rfl
  refine fun name hname => ⟨hplain name hname, ?_, by simp⟩
  rintro rfl
  simp [plainNames] at hname

section
variable {m : Metrics} {prints : Prints}

theorem name_blocks (queueDepth : ℤ) (gauges : GaugeSnapshot) :
    ∀ b ∈ m.blocks prints queueDepth gauges, ∀ s ∈ b.2, s.name ∈ b.1 := by
  have hone : ∀ name value : String, ∀ s ∈ [(⟨name, [], value⟩ : Sample)], s.name ∈ [name] := by
    intro name value s hs
    rw [List.mem_singleton.1 hs]
    simp
  have hduration : ∀ s ∈ (m.snapshot .httpDuration).flatMap fun row =>
      m.histogramSamples prints FamilyName.httpDuration.series.1 FamilyName.httpDuration.series.2 row.1 (.arc row.2),
      s.name ∈ [FamilyName.httpDuration.series.1 ++ "_bucket", FamilyName.httpDuration.series.1 ++ "_sum",
        FamilyName.httpDuration.series.1 ++ "_count"] := by
    intro s hs
    obtain ⟨row, -, hs⟩ := List.mem_flatMap.1 hs
    exact name_histogramSamples _ s hs
  unfold Metrics.blocks
  simp only [List.forall_mem_cons]
  refine ⟨by simp, name_familySamples _, hduration, name_familySamples _, name_familySamples _,
    name_familySamples _, name_familySamples _, name_familySamples _, name_familySamples _,
    name_histogramSamples _, name_familySamples _, name_familySamples _, ?_⟩
  simp

theorem nodup_blocks (queueDepth : ℤ) (gauges : GaugeSnapshot) :
    ((m.blocks prints queueDepth gauges).flatMap (·.1)).Nodup := by
  simp [Metrics.blocks, FamilyName.series]

theorem written_render (hprints : prints.OneLine) (hm : m.Keyed) (queueDepth : ℤ) (gauges : GaugeSnapshot) :
    Written (m.render prints queueDepth gauges) ((m.blocks prints queueDepth gauges).flatMap (·.2)) := by
  unfold Metrics.render
  simp only [Metrics.blocks, List.flatMap_cons, List.flatMap_nil, List.append_nil, ← List.append_assoc]
  exact written_build_info
    |>.append (written_counterFamily hm (fit_series .httpRequests) (newline_ofList rfl) .httpRequests)
    |>.append (written_histogramFamily hprints hm (fit_series .httpDuration) (newline_ofList rfl) .httpDuration)
    |>.append (written_counterFamily hm (fit_series .authzDecisions) (newline_ofList rfl) .authzDecisions)
    |>.append (written_counterFamily hm (fit_series .sessionRefresh) (newline_ofList rfl) .sessionRefresh)
    |>.append (written_counterFamily hm (fit_series .tokenExchanges) (newline_ofList rfl) .tokenExchanges)
    |>.append (written_counterFamily hm (fit_series .tokensIssued) (newline_ofList rfl) .tokensIssued)
    |>.append (written_counterFamily hm (fit_series .sessionAnomalies) (newline_ofList rfl) .sessionAnomalies)
    |>.append (written_counterFamily hm (fit_series .keepaliveRefresh) (newline_ofList rfl) .keepaliveRefresh)
    |>.append (written_histogram hprints (fit_plain _ (by simp [plainNames])) (newline_ofList rfl) .keepaliveDuration)
    |>.append (written_counterFamily hm (fit_series .rateLimited) (newline_ofList rfl) .rateLimited)
    |>.append (written_counterFamily hm (fit_series .auditRecorded) (newline_ofList rfl) .auditRecorded)
    |>.append (written_gauge hprints (fit_plain _ (by simp [plainNames])) (newline_ofList rfl) _)
    |>.append (written_gauge hprints (fit_plain _ (by simp [plainNames])) (newline_ofList rfl) _)
    |>.append (written_gauge hprints (fit_plain _ (by simp [plainNames])) (newline_ofList rfl) _)
    |>.append (written_custody gauges)
    |>.append (written_counter (fit_plain _ (by simp [plainNames])) (newline_ofList rfl) _)
    |>.append (written_counter (fit_plain _ (by simp [plainNames])) (newline_ofList rfl) _)
    |>.append (written_gauge hprints (fit_plain _ (by simp [plainNames])) (newline_ofList rfl) _)
    |>.append (written_gauge hprints (fit_plain _ (by simp [plainNames])) (newline_ofList rfl) _)
    |>.append (written_gauge hprints (fit_plain _ (by simp [plainNames])) (newline_ofList rfl) _)
    |>.append (written_gauge hprints (fit_plain _ (by simp [plainNames])) (newline_ofList rfl) _)

/-- The page under the name of a family of counters. -/
theorem filter_family (hprints : prints.OneLine) (hm : m.Keyed) (queueDepth : ℤ) (gauges : GaugeSnapshot) :
    ∃ samples, read (page (m.render prints queueDepth gauges)) = some samples ∧
      ∀ family : FamilyName, family ≠ .httpDuration → samples.filter (·.name = family.series.1) =
        m.familySamples family.series.1 family.series.2 family := by
  refine ⟨_, read_page (written_render hprints hm queueDepth gauges), fun family hne => ?_⟩
  refine filter_blocks (nodup_blocks queueDepth gauges) (name_blocks queueDepth gauges) ?_
  cases family with
  | httpDuration => exact absurd rfl hne
  | _ => simp [Metrics.blocks]

end

/-! ## What is read -/

theorem Recorded.length_eq {family : FamilyName} {labels : List String} {actions : List Recorders.Action}
    (h : Recorded family labels actions) : labels.length = family.series.2.length := by
  obtain ⟨r, -, adds, hmem⟩ := h
  cases r with
  | request lane route status elapsed =>
    simp only [Recording.writes, List.mem_cons, Prod.mk.injEq, Target.family.injEq, List.not_mem_nil, or_false] at hmem
    obtain ⟨⟨rfl, rfl⟩, -⟩ | ⟨⟨rfl, rfl⟩, -⟩ := hmem <;> rfl
  | keepalive outcome elapsed =>
    simp only [Recording.writes, List.mem_cons, Prod.mk.injEq, Target.family.injEq, Option.mem_toList,
      Option.map_eq_some_iff, reduceCtorEq, false_and, and_false, exists_false, or_false] at hmem
    obtain ⟨⟨rfl, rfl⟩, -⟩ := hmem
    rfl
  | auditDropped | auditFailed => simp [Recording.writes] at hmem
  | _ =>
    simp only [Recording.writes, List.mem_singleton, Prod.mk.injEq, Target.family.injEq] at hmem
    obtain ⟨⟨rfl, rfl⟩, -⟩ := hmem
    rfl

/-- **The page says what was counted.**  Once the calls are over, a reader of
    the format finds under the name of each family of counters one sample for
    each labels that were counted, with the sum of what was given for them,
    and nothing else: no text in a label makes up a sample or hides one. -/
theorem page_reads_back (actions : List Recorders.Action)
    (hdone : ∀ r ∈ (run Recorders.step .new actions).threads, r.Done) (prints : Prints)
    (hprints : prints.OneLine) (queueDepth : ℤ) (gauges : GaugeSnapshot) :
    ∃ samples, read (page ((run Recorders.step .new actions).metrics.render prints queueDepth gauges)) =
        some samples ∧
      ∀ family : FamilyName, family ≠ .httpDuration → ∃ keys : List (List String), keys.Nodup ∧
        (∀ labels, labels ∈ keys ↔ Recorded family labels actions) ∧
        samples.filter (·.name = family.series.1) = keys.map fun labels =>
          ⟨family.series.1, family.series.2.zip labels,
            toString (given (.family family labels) .value actions).toNat⟩ := by
  obtain ⟨m, hm⟩ : ∃ m, m = (run Recorders.step .new actions).metrics := ⟨_, rfl⟩
  have hkept := kept_run actions
  have hexported : ∀ target, m.exported target .value = given target .value actions := by
    intro target
    rw [← hkept.books, List.map_congr_left fun r hr => (hdone r hr).owed target .value]
    simp [hm]
  have hkeys : ∀ family labels, labels ∈ (m.inner family).map (·.1) ↔ Recorded family labels actions := by
    intro family labels
    rw [← sees_run, Recorders.Sees, ← hm, or_iff_left]
    rintro ⟨r, hr, hwants⟩
    exact (hdone r hr).not_wants family labels hwants
  have hkeyed : m.Keyed := fun family row hrow =>
    Recorded.length_eq ((hkeys family row.1).1 (List.mem_map_of_mem (f := (·.1)) hrow))
  rw [← hm]
  obtain ⟨samples, hread, hfilter⟩ := filter_family hprints hkeyed queueDepth gauges
  refine ⟨samples, hread, fun family hne => ⟨(m.snapshot family).map (·.1), ?_, fun labels => ?_, ?_⟩⟩
  · have hnodup := hkept.wellKept.nodup family
    rw [← hm] at hnodup
    exact ((List.mergeSort_perm _ _).map _).nodup_iff.2 hnodup
  · rw [← hkeys]
    exact ((List.mergeSort_perm _ _).map _).mem_iff
  · rw [hfilter family hne, Metrics.familySamples, List.map_map]
    refine List.map_congr_left fun row hrow => ?_
    have hlookup : (m.inner family).lookup row.1 = some row.2 := by
      have hnodup := hkept.wellKept.nodup family
      rw [← hm] at hnodup
      exact Lookup.lookup_of_mem hnodup (List.mem_mergeSort.1 hrow)
    have hvalue : m.exported (.family family row.1) .value = m.cells (.arc row.2) .value := by
      simp [Metrics.exported, Metrics.cellOf, hlookup]
    dsimp only [Function.comp]
    rw [← hvalue, hexported]

/-- `f64` on whole numbers that are not negative. -/
def wholePrints : Prints := ⟨fun n => toString n.toNat, fun n => toString (n.toNat / 1000000)⟩

/-- Two calls that miss each other's labels, which have a quote and the end of a line in them. -/
theorem page_reads_back_authz :
    let actions : List Recorders.Action := [.record (.authz "deny" "a\"\n"), .record (.authz "deny" "a\"\n"),
      .advance 0, .advance 1, .advance 0, .advance 1, .advance 0, .advance 1]
    ∃ (samples : List Sample) (keys : List (List String)),
      read (page ((run Recorders.step .new actions).metrics.render wholePrints 0 {})) = some samples ∧
      ["deny", "a\"\n"] ∈ keys ∧
      samples.filter (·.name = "broker_authz_decisions_total") = keys.map fun labels =>
        ⟨"broker_authz_decisions_total", ["decision", "reason"].zip labels,
          toString (given (.family .authzDecisions labels) .value actions).toNat⟩ := by
  intro actions
  have hthreads : (run Recorders.step .new actions).threads =
      [⟨[], .adding (.family .authzDecisions ["deny", "a\"\n"]) (.arc 0) []⟩,
        ⟨[], .adding (.family .authzDecisions ["deny", "a\"\n"]) (.arc 0) []⟩] := by
    decide +kernel
  have hdone : ∀ r ∈ (run Recorders.step .new actions).threads, r.Done := by
    intro r hr
    rw [hthreads] at hr
    simp only [List.mem_cons, List.not_mem_nil, or_false, or_self] at hr
    rw [hr]
    exact ⟨rfl, Or.inr ⟨_, _, rfl⟩⟩
  obtain ⟨samples, hread, hfamilies⟩ := page_reads_back actions hdone wholePrints
    ⟨fun n => newline_not_mem_nat _, fun n => newline_not_mem_nat _⟩ 0 {}
  obtain ⟨keys, -, hkeys, hfilter⟩ := hfamilies .authzDecisions (by simp)
  refine ⟨samples, keys, hread, (hkeys _).2 ⟨.authz "deny" "a\"\n", by simp [actions], bump 1, ?_⟩, hfilter⟩
  simp [Recording.writes]

end SessionBroker.Telemetry
