import Mathlib.Tactic.SplitIfs
import Backtest.Cache
import Backtest.Http
import Backtest.PriceDirectory
import Backtest.Proofs.JsonText
import Backtest.Proofs.SoundRule
import Backtest.Proofs.Trades

/-!
# A report is asked for as a rule is

A service answers `POST /validate` with the rule of a candidate and `POST /backtest` with the report on it. Both
read the body and the candidate before anything else. So what refuses the rule refuses the report, with the same
answer, and a report holds the rule that the other question is answered with: `Service.answer_agree`.

This is so for bodies of any length. Requests with a body above `Service.bodyLimit` never come to the two questions:
they get the same answer to both, but one in plain text.

The two questions may come at any time, with other requests between them. What they share is the set of tickers
that have prices, so this must not change while requests are answered (`PriceSource.IsSteady`). A directory is
steady as long as its files are left alone (`PriceDirectory.isSteady_source`), and a cache in front of a steady
source is steady, although it comes to know tickers (`PriceSource.IsSteady.cached`): it is only asked for tickers
that the source knows.
-/

namespace Backtest

/-! ## Sources whose data do not change -/

/-- In all states that requests may lead to, the source has prices for the same tickers. -/
structure PriceSource.IsSteady {σ : Type} (source : PriceSource σ) (known : String → Bool) (reached : σ → Prop) :
    Prop where
  resolves : ∀ s, reached s → source.resolves s = known
  fetch : ∀ s, reached s → ∀ ticker timeframe, known ticker = true → reached (source.fetch s ticker timeframe).2

namespace PriceSource

variable {σ : Type} {source : PriceSource σ} {known : String → Bool} {reached : σ → Prop}

/-- A cache that holds bars of known tickers alone stays one. -/
theorem IsSteady.cached (h : source.IsSteady known reached) :
    source.cached.IsSteady known fun s => (∀ e ∈ s.1, known e.1.1 = true) ∧ reached s.2 where
  resolves := by
    rintro ⟨cache, s⟩ ⟨hcache, hs⟩
    funext ticker
    show (Cache.knows cache ticker || source.resolves s ticker) = known ticker
    rw [h.resolves s hs]
    cases hknows : Cache.knows cache ticker with
    | false => rfl
    | true =>
      obtain ⟨e, he, hticker⟩ := List.any_eq_true.mp hknows
      rw [Bool.true_or, ← beq_iff_eq.mp hticker, hcache e he]
  fetch := by
    rintro ⟨cache, s⟩ ⟨hcache, hs⟩ ticker timeframe hticker
    have hnext := h.fetch s hs ticker timeframe hticker
    simp only [PriceSource.cached]
    cases hget : cache.get? (ticker, timeframe) with
    | some bars => exact ⟨hcache, hs⟩
    | none =>
      rcases hfetch : source.fetch s ticker timeframe with ⟨failure | bars, next⟩
      · rw [hfetch] at hnext
        exact ⟨hcache, hnext⟩
      · rw [hfetch] at hnext
        refine ⟨?_, hnext⟩
        intro e he
        rcases List.mem_cons.mp he with rfl | he
        · exact hticker
        · exact hcache e (List.mem_filter.mp he).1

theorem validate_congr {s s' : σ} (h : source.resolves s = source.resolves s') (candidate : Json) :
    source.validate s candidate = source.validate s' candidate := by
  rw [validate, validate, h]

/-- The ticker of a rule has prices. -/
theorem resolves_of_validate {s : σ} {candidate : Json} {rule : Rule Float}
    (h : source.validate s candidate = .ok rule) : source.resolves s rule.ticker = true := by
  rw [validate] at h
  cases hrule : Rule.ofCandidate (source.resolves s) candidate with
  | error defect =>
    rw [hrule] at h
    cases h
  | ok rule' =>
    rw [hrule] at h
    rw [← Except.ok.inj h]
    obtain ⟨members, -, -, -, -, -, -, hresolves⟩ := Rule.ofCandidate_eq_ok_iff.mp hrule
    exact hresolves

theorem IsSteady.backtest (h : source.IsSteady known reached) {s : σ} (hs : reached s) (candidate : Json)
    (timeframe : Timeframe) (window : Window) : reached (source.backtest s candidate timeframe window).2 := by
  rw [PriceSource.backtest]
  cases hrule : source.validate s candidate with
  | error failure => exact hs
  | ok rule => exact h.fetch s hs rule.ticker timeframe (h.resolves s hs ▸ resolves_of_validate hrule)

end PriceSource

/-- The directory is only read. -/
theorem PriceDirectory.isSteady_source (d : PriceDirectory) (disk : Disk) :
    d.source.IsSteady (d.resolves disk) (· = disk) where
  resolves := by
    rintro s rfl
    rfl
  fetch := by
    rintro s rfl ticker timeframe -
    rfl

/-! ## Requests one after the other -/

namespace Service

variable {σ : Type} (service : Service σ)

/-- The state behind some requests. -/
def after (s : σ) (requests : List Request) : σ := requests.foldl (fun s r => (service.answer s r).2) s

variable {service} {known : String → Bool} {reached : σ → Prop}

theorem reached_backtest (h : service.source.IsSteady known reached) {s : σ} (hs : reached s) (body : List UInt8) :
    reached (service.backtest s body).2 := by
  rw [Service.backtest]
  cases candidate body with
  | error failure => exact hs
  | ok v =>
    have hnext := h.backtest hs v service.timeframe service.window
    revert hnext
    simp only
    rcases service.source.backtest s v service.timeframe service.window with ⟨failure | report, next⟩
    · exact id
    · exact id

theorem reached_onBody {s : σ} (hs : reached s) {body : List UInt8} {question : List UInt8 → Response × σ}
    (hnext : reached (question body).2) : reached (onBody s body question).2 := by
  rw [onBody]
  split_ifs
  · exact hs
  · exact hnext

theorem reached_answer (h : service.source.IsSteady known reached) {s : σ} (hs : reached s) (r : Request) :
    reached (service.answer s r).2 := by
  show reached (service.respond s r).2
  unfold respond
  split
  · split_ifs <;> exact hs
  · split_ifs
    · exact reached_onBody hs (reached_backtest h hs r.body)
    · exact hs
  · split_ifs
    · exact reached_onBody hs hs
    · exact hs
  · exact hs

theorem reached_after (h : service.source.IsSteady known reached) {s : σ} (hs : reached s) (requests : List Request) :
    reached (service.after s requests) := by
  induction requests generalizing s with
  | nil => exact hs
  | cons r requests ih => exact ih (reached_answer h hs r)

end Service

/-! ## The two questions -/

/-- A request that posts a body to a path. -/
structure Request.Posts (r : Request) (path : String) (body : List UInt8) : Prop where
  method : r.method = "POST"
  path : r.path = path
  body : r.body = body

theorem Failure.status_ne (f : Failure) : f.status ≠ 200 := by
  cases f <;> simp [status]

/-- An answer with nothing but an error: an object with one member, which is read back from its body. -/
def Response.IsRefusal (r : Response) : Prop :=
  ∃ message, r = .json r.status (.obj [("error", .str message)]) ∧
    Json.readText r.body = .ok (.obj [("error", .str message)])

theorem Response.isRefusal_ofFailure (f : Failure) : (ofFailure f).IsRefusal :=
  ⟨f.message, rfl, Json.readText_compact_single _ _⟩

/-- The answers to the two questions about one body agree: who is refused the rule is refused the report in the same
way, and who gets a report gets, as the rule, the summary that stands in the report. -/
structure Response.Agree (asked reported : Response) : Prop where
  refused : asked.status ≠ 200 → reported = asked ∧ asked.IsRefusal
  given : reported.status = 200 → ∃ report summary : Json,
    reported = .json 200 report ∧ Json.Spells reported.body.toList report ∧
      report.get? "strategySummary" = some summary ∧
      asked = .json 200 summary ∧ Json.Spells asked.body.toList summary

/-- A report is one on the rule that it was asked for. -/
theorem PriceSource.rule_of_report {rule : Rule Float} {window : Window}
    {fetched : Except Failure (List (Bar Float))} {r : Report} (h : report rule window fetched = .ok r) :
    r.rule = rule := by
  rcases fetched with failure | _ | ⟨bar, bars⟩
  · cases h
  · cases h
  · simp only [report, Report.ofHistory] at h
    cases hrun : rule.run (bar :: bars) window with
    | error fault => simp [hrun] at h
    | ok run =>
      rw [hrun] at h
      rw [← Except.ok.inj h]
      rfl

namespace Service

variable {σ : Type} {service : Service σ} {r : Request} {body : List UInt8}

theorem answer_validate (s : σ) (h : r.Posts "/validate" body) :
    service.answer s r = onBody s body fun body => (service.validate s body, s) := by
  simp [answer, respond, h.path, h.method, h.body]

theorem answer_backtest (s : σ) (h : r.Posts "/backtest" body) :
    service.answer s r = onBody s body (service.backtest s) := by
  simp [answer, respond, h.path, h.method, h.body]

theorem onBody_of_long (s : σ) {question : List UInt8 → Response × σ} (h : bodyLimit < body.length) :
    onBody s body question = (.tooLong, s) := if_pos h

theorem onBody_of_short (s : σ) {question : List UInt8 → Response × σ} (h : body.length ≤ bodyLimit) :
    onBody s body question = question body := if_neg (not_lt.mpr h)

/-- Where the same tickers have prices, a body is refused with the same answer to both questions, or it has a rule,
and a report on this rule or a failure behind it. -/
theorem validate_or_backtest (service : Service σ) {s s' : σ}
    (hsame : service.source.resolves s = service.source.resolves s') (body : List UInt8) :
    (∃ failure, service.validate s body = .ofFailure failure ∧ (service.backtest s' body).1 = .ofFailure failure) ∨
      ∃ rule, service.validate s body = .json 200 rule.summary ∧
        ((∃ failure, (service.backtest s' body).1 = .ofFailure failure) ∨
          ∃ report : Report, (service.backtest s' body).1 = .json 200 report.toJson ∧ report.rule = rule) := by
  rw [validate, backtest]
  cases candidate body with
  | error failure => exact .inl ⟨failure, rfl, rfl⟩
  | ok v =>
    simp only [PriceSource.backtest, ← PriceSource.validate_congr hsame]
    cases service.source.validate s v with
    | error failure => exact .inl ⟨failure, rfl, rfl⟩
    | ok rule =>
      refine .inr ⟨rule, rfl, ?_⟩
      simp only
      cases hreport : PriceSource.report rule service.window
          (service.source.fetch s' rule.ticker service.timeframe).1 with
      | error failure => exact .inl ⟨failure, rfl⟩
      | ok report => exact .inr ⟨report, rfl, PriceSource.rule_of_report hreport⟩

theorem validate_agree (service : Service σ) {s s' : σ}
    (hsame : service.source.resolves s = service.source.resolves s') (body : List UInt8) :
    Response.Agree (service.validate s body) (service.backtest s' body).1 := by
  rcases validate_or_backtest service hsame body with
    ⟨failure, hv, hb⟩ | ⟨rule, hv, ⟨failure, hb⟩ | ⟨report, hb, rfl⟩⟩
  · rw [hv, hb]
    exact ⟨fun _ => ⟨rfl, Response.isRefusal_ofFailure failure⟩, fun h => absurd h failure.status_ne⟩
  · rw [hv, hb]
    exact ⟨fun h => absurd rfl h, fun h => absurd h failure.status_ne⟩
  · rw [hv, hb]
    exact ⟨fun h => absurd rfl h,
      fun _ => ⟨_, _, rfl, Json.spells_compact _, rfl, rfl, Json.spells_compact _⟩⟩

/-- **Validating and backtesting agree.** Let a service answer any requests, over a source whose data do not
change, and let the same body be posted to both questions, each behind requests of its own. Whatever the body is, the
two questions agree on it: if the rule is refused, then the report is refused with the same status and the same body,
an object with nothing but the error; if the report is given, then the rule is given as well, and it is the summary
that stands in the report. The requests are answered in this way, but if their body is too long to come to the
questions, they are refused with one and the same plain text. -/
theorem answer_agree {known : String → Bool} {reached : σ → Prop} (hsteady : service.source.IsSteady known reached)
    {s : σ} (hs : reached s) (before before' : List Request) {ask run : Request} {body : List UInt8}
    (hask : ask.Posts "/validate" body) (hrun : run.Posts "/backtest" body) :
    Response.Agree (service.validate (service.after s before) body)
      (service.backtest (service.after s before') body).1 ∧
    (body.length ≤ bodyLimit → Response.Agree (service.answer (service.after s before) ask).1
      (service.answer (service.after s before') run).1) ∧
    (bodyLimit < body.length → (service.answer (service.after s before) ask).1 = .tooLong ∧
      (service.answer (service.after s before') run).1 = .tooLong) := by
  have hsame : service.source.resolves (service.after s before) = service.source.resolves (service.after s before') :=
    (hsteady.resolves _ (reached_after hsteady hs before)).trans
      (hsteady.resolves _ (reached_after hsteady hs before')).symm
  rw [answer_validate _ hask, answer_backtest _ hrun]
  refine ⟨validate_agree service hsame body, fun hshort => ?_, fun hlong => ?_⟩
  · rw [onBody_of_short _ hshort, onBody_of_short _ hshort]
    exact validate_agree service hsame body
  · rw [onBody_of_long _ hlong, onBody_of_long _ hlong]
    exact ⟨rfl, rfl⟩

/-- A source of three rising prices, for one ticker. -/
def risingPrices : PriceSource Unit where
  resolves _ ticker := ticker == "ACME"
  fetch s _ _ := (.ok (Bar.flatHistory [1, 2, 3]), s)

theorem isSteady_risingPrices : risingPrices.IsSteady (· == "ACME") fun _ => True where
  resolves _ _ := rfl
  fetch _ _ _ _ _ := trivial

/-- The prices behind a cache. -/
def cachedPrices : Service (Cache × Unit) := ⟨risingPrices.cached, .daily, .everything⟩

/-- A request that posts a text. -/
def post (path text : String) : Request := ⟨"POST", path, text.toList.map Json.byte⟩

theorem path_post (path text : String) : (post path text).path = (post path "").path := by
  simp only [post, Request.path]

/-- The strategy to buy while the price is above one. -/
def buysAboveOne : String :=
  "\x7b\"ticker\":\"acme\",\"action\":\"buy\"," ++
    "\"conditions\":[\x7b\"indicator\":\"price\",\"operator\":\">\",\"value\":1\x7d]\x7d"

/-- A body of one byte too many. -/
def longBody : List UInt8 := List.replicate (bodyLimit + 1) (Json.byte '[')

theorem lt_length_longBody : bodyLimit < longBody.length := by
  rw [longBody, List.length_replicate]
  exact Nat.lt_succ_self _

theorem posts_longBody (path : String) (h : (⟨"POST", path, []⟩ : Request).path = path) :
    (⟨"POST", path, longBody⟩ : Request).Posts path longBody := ⟨rfl, h, rfl⟩

/-- The report is asked for twice, so that the second answer comes from the cache; a text that breaks off is refused
in both ways with an error, and a body that is too long in both ways without one. -/
theorem answer_agree_cachedPrices :
    cachedPrices.source.IsSteady (· == "ACME") (fun s => (∀ e ∈ s.1, (e.1.1 == "ACME") = true) ∧ True) ∧
      ((cachedPrices.answer (cachedPrices.after ([], ()) [post "/backtest" buysAboveOne])
          (post "/backtest" buysAboveOne)).1.status = 200 ∧
        Response.Agree (cachedPrices.answer ([], ()) (post "/validate" buysAboveOne)).1
          (cachedPrices.answer (cachedPrices.after ([], ()) [post "/backtest" buysAboveOne])
            (post "/backtest" buysAboveOne)).1) ∧
      ((cachedPrices.answer ([], ()) (post "/validate" "[1")).1.status = 400 ∧
        (cachedPrices.answer (cachedPrices.after ([], ()) [post "/backtest" buysAboveOne])
          (post "/backtest" "[1")).1 = (cachedPrices.answer ([], ()) (post "/validate" "[1")).1 ∧
        (cachedPrices.answer ([], ()) (post "/validate" "[1")).1.IsRefusal) ∧
      bodyLimit < longBody.length ∧
      (cachedPrices.answer ([], ()) ⟨"POST", "/validate", longBody⟩).1 = .tooLong ∧
      (cachedPrices.answer (cachedPrices.after ([], ()) [post "/backtest" buysAboveOne])
        ⟨"POST", "/backtest", longBody⟩).1 = .tooLong := by
  have hsteady := isSteady_risingPrices.cached
  have hask : ∀ text, (post "/validate" text).Posts "/validate" (text.toList.map Json.byte) :=
    fun text => ⟨rfl, (path_post "/validate" text).trans (by decide), rfl⟩
  have hrun : ∀ text, (post "/backtest" text).Posts "/backtest" (text.toList.map Json.byte) :=
    fun text => ⟨rfl, (path_post "/backtest" text).trans (by decide), rfl⟩
  have hstart : (∀ e ∈ ([] : Cache), (e.1.1 == "ACME") = true) ∧ True := ⟨nofun, trivial⟩
  have hagree := fun text => @answer_agree _ cachedPrices _ _ hsteady ([], ()) hstart []
    [post "/backtest" buysAboveOne] _ _ _ (hask text) (hrun text)
  have hlong := @answer_agree _ cachedPrices _ _ hsteady ([], ()) hstart [] [post "/backtest" buysAboveOne]
    _ _ _ (posts_longBody "/validate" (by decide)) (posts_longBody "/backtest" (by decide))
  have hrule := (hagree buysAboveOne).2.1 (by decide)
  have hrefused := ((hagree "[1").2.1 (by decide)).refused (by decide)
  exact ⟨hsteady, ⟨rfl, hrule⟩, ⟨rfl, hrefused⟩, lt_length_longBody, hlong.2.2 lt_length_longBody⟩

end Service

end Backtest
