import Backtest.Proofs.AllOrNothing
import Backtest.Proofs.SheetPaths
import Backtest.Proofs.Summary

/-!
# Listed tickers in strategies

A directory lists the stems of its daily sheets as they stand there, and a strategy spells its ticker in capitals and
without blanks (`Candidate.spelled`), and only as a symbol. So a listed name is refused if its spelling is no symbol,
and otherwise accepted under its spelling if there is a sheet for that: `PriceDirectory.listed_accepted`. A name that
is its own spelling has such a sheet, unless the entry that it was listed for is a directory.

An entry is found below the path of its directory (`FileTree.find_join`), which ties the names that are listed to the
paths that are asked for. `PriceDirectory.listed_refused` has two sheets that are listed and of no use.
-/

namespace Backtest

/-! ## Entries of a directory -/

namespace FileTree

variable {t : FileTree} {path name : String} {place : List String}

theorem node?_of_find {node : Node} (h : t.find path = .ok (place, node)) :
    path ≠ "" ∧ '\x00' ∉ path.toList ∧ t.follow [] (names path) = .ok place ∧ t.node? place = some node := by
  rw [find] at h
  split_ifs at h with hempty hzero
  rw [String.isEmpty_iff] at hempty
  rw [String.contains_char_eq, decide_eq_true_iff] at hzero
  split at h
  · cases h
  · rename_i stop hstop
    split at h
    · rename_i found hfound
      obtain ⟨rfl, rfl⟩ : stop = place ∧ found = node := by simpa using h
      exact ⟨hempty, hzero, hstop, hfound⟩
    · cases h

/-- An entry of a directory is found below the path of the directory. -/
theorem find_join (hdirectory : t.find path = .ok (place, .directory)) (hname : IsSingleName name)
    (hzero : '\x00' ∉ name.toList) (hshort : ¬ maxName < name.utf8ByteSize) {node : Node}
    (hnode : t.node? (place ++ [name]) = some node) :
    t.find (Disk.join path name) = .ok (place ++ [name], node) := by
  obtain ⟨hpath, hpathZero, hfollow, hplace⟩ := node?_of_find hdirectory
  have hleadsDown : name ≠ "" ∧ name ≠ "." ∧ name ≠ ".." := ⟨hname.nonempty, hname.notHere, hname.notUp⟩
  obtain ⟨front, hfront, hjoin⟩ := names_join hpath hname.noSlash
  have hreached : t.follow [] front = .ok place := by
    rcases hfront with hfront | hfront
    · rwa [hfront] at hfollow
    · -- An empty name behind a slash at the end stays in the directory in front of it.
      rw [hfront, follow_append] at hfollow
      cases hmiddle : t.follow [] front with
      | error fault => simp [hmiddle, Except.bind] at hfollow
      | ok middle =>
        simp only [hmiddle, Except.bind, follow, true_or, if_true] at hfollow
        split at hfollow
        · cases hfollow
        · cases hfollow
        · exact hfollow
  have hend : t.follow [] (names (Disk.join path name)) = .ok (place ++ [name]) := by
    rw [hjoin, follow_append, hreached]
    exact follow_singleton hplace hleadsDown hshort
  have hempty : (Disk.join path name).isEmpty = false := by
    rw [Bool.eq_false_iff, ne_eq, String.isEmpty_iff, Disk.join_eq hpath hname.noSlash]
    split_ifs <;> simp [hname.nonempty]
  have hcontains : (Disk.join path name).contains '\x00' = false := by
    rw [String.contains_char_eq, Disk.join_eq hpath hname.noSlash]
    split_ifs <;> simp [hpathZero, hzero]
  simp [find, hempty, hcontains, hend, hnode]

/-- Each name in a directory stands for an entry. -/
theorem exists_list (hdirectory : t.find path = .ok (place, .directory)) :
    ∃ names, t.list path = .ok names ∧ ∀ name ∈ names, ∃ node, t.node? (place ++ [name]) = some node := by
  simp only [list, hdirectory]
  refine ⟨_, rfl, fun name hname => ?_⟩
  obtain ⟨⟨key, node⟩, hentry, hkey⟩ := List.mem_filterMap.mp hname
  simp only at hkey
  split at hkey
  · rename_i last hlast
    split_ifs at hkey with hparent
    obtain rfl := Option.some.inj hkey
    have heq : place ++ [last] = key := by
      rw [← beq_iff_eq.mp hparent]
      exact List.dropLast_append_getLast? last hlast
    have hnonempty : (place ++ [last]).isEmpty = false := by simp
    rw [node?, hnonempty, heq]
    exact (Assoc.exists_get?_iff _ _).mpr (List.mem_map.mpr ⟨_, hentry, rfl⟩)
  · cases hkey

/-- There is a sheet for a ticker among the entries at a place. -/
def HasSheet (t : FileTree) (place : List String) (ticker : String) : Prop :=
  ∃ timeframe bytes, t.node? (place ++ [PriceDirectory.fileName ticker timeframe]) = some (.file bytes)

end FileTree

namespace PriceDirectory

variable {t : FileTree} {d : PriceDirectory} {place : List String} {ticker : String}

theorem fileName_of_tickerOf? {name : String} (h : tickerOf? name = some ticker) :
    fileName ticker .daily = name := by
  rw [tickerOf?] at h
  split_ifs at h with hstem
  obtain rfl := Option.some.inj h
  apply String.toList_injective
  rw [fileName, String.toList_append, String.toList_ofList, ← hstem.1, List.length_take,
    Nat.min_eq_left (Nat.sub_le _ _), List.take_append_drop]

theorem exists_tickers (hdirectory : t.find d.path = .ok (place, .directory)) :
    ∃ tickers, d.tickers t.disk = .ok tickers ∧
      ∀ ticker ∈ tickers, ∃ node, t.node? (place ++ [fileName ticker .daily]) = some node := by
  obtain ⟨names, hlist, hnames⟩ := FileTree.exists_list hdirectory
  have hlist' : t.disk.list d.path = .ok names := hlist
  simp only [tickers, hlist']
  refine ⟨_, rfl, fun ticker hticker => ?_⟩
  rw [List.mem_mergeSort] at hticker
  obtain ⟨name, hname, hstem⟩ := List.mem_filterMap.mp hticker
  rw [fileName_of_tickerOf? hstem]
  exact hnames name hname

theorem size_fileName_le (h : IsTicker ticker) (timeframe : Timeframe) :
    (fileName ticker timeframe).utf8ByteSize ≤ 23 := by
  have hticker := utf8ByteSize_of_isPlain fun c hc => Candidate.isPlain_of_isTickerChar (h.chars c hc)
  rw [String.ofList_toList, String.length_toList] at hticker
  have hrest : (mark timeframe ++ suffix).utf8ByteSize ≤ 8 := by
    cases timeframe <;> decide
  rw [fileName_eq, String.utf8ByteSize_append, hticker]
  have := h.short
  omega

/-- A sheet in the directory is one that the directory knows of. -/
theorem resolves_of_hasSheet (hdirectory : t.find d.path = .ok (place, .directory)) (h : IsTicker ticker)
    (hsheet : t.HasSheet place ticker) : d.resolves t.disk ticker = true := by
  obtain ⟨timeframe, bytes, hnode⟩ := hsheet
  have hfind : t.find (d.filePath ticker timeframe) =
      .ok (place ++ [fileName ticker timeframe], .file bytes) := by
    refine FileTree.find_join hdirectory (isSingleName_fileName h timeframe) ?_ ?_ hnode
    · exact not_mem_fileName h rfl (by cases timeframe <;> decide)
    · have := size_fileName_le h timeframe
      rw [FileTree.maxName]
      omega
  have hfile : t.disk.isFile (d.filePath ticker timeframe) = true := by
    show t.isFile _ = true
    rw [FileTree.isFile, hfind]
  have hmem : d.filePath ticker timeframe ∈ d.sheets ticker := by
    refine List.mem_map.mpr ⟨timeframe, ?_, rfl⟩
    cases timeframe <;> simp
  exact List.any_eq_true.mpr ⟨_, hmem, hfile⟩

end PriceDirectory

/-! ## Candidates with a ticker -/

namespace Candidate

/-- A candidate that becomes a rule once it has a ticker with prices. -/
def IsOtherwiseValid (candidate : Json) : Prop :=
  ∃ raw r, Rule.ofCandidate (fun _ => true) (Command.withTicker (some raw) candidate) = .ok r

variable {members : Members}

/-- The ticker is of no account for the other parts of a candidate. -/
theorem parts_insert_ticker (value : Json) (members : Members) :
    checkReport (Json.insert "ticker" value members) = checkReport members ∧
      direction (Json.insert "ticker" value members) = direction members ∧
      conditions (Json.insert "ticker" value members) = conditions members ∧
      combination (Json.insert "ticker" value members) = combination members := by
  simp [checkReport, direction, conditions, combination, present?, Json.find?_insert]

/-- A candidate that is otherwise valid is accepted for a ticker if its spelling is a symbol with prices. -/
theorem IsOtherwiseValid.ofCandidate_withTicker {candidate : Json} (h : IsOtherwiseValid candidate) :
    ∃ way cs mix, ∀ resolves raw,
      Rule.ofCandidate resolves (Command.withTicker (some raw) candidate) =
        if (spelled raw).isEmpty then .error .tickerEmpty
        else if isSymbol (spelled raw) then
          if resolves (spelled raw) then .ok ⟨spelled raw, way, cs, mix⟩ else .error (.unresolved (spelled raw))
        else .error (.tickerInvalid raw) := by
  obtain ⟨first, r, h⟩ := h
  obtain ⟨inserted, hcandidate, hreport, -, hdirection, hconditions, hcombination, -⟩ :=
    Rule.ofCandidate_eq_ok_iff.mp h
  cases candidate with
  | obj members =>
    obtain rfl := Json.obj.inj hcandidate
    obtain ⟨hreport₀, hdirection₀, hconditions₀, hcombination₀⟩ := parts_insert_ticker (.str first) members
    refine ⟨r.direction, r.conditions, r.combination, fun resolves raw => ?_⟩
    obtain ⟨hreport₁, hdirection₁, hconditions₁, hcombination₁⟩ := parts_insert_ticker (.str raw) members
    have hmember : present? (Json.insert "ticker" (.str raw) members) "ticker" = some (.str raw) := by
      simp [present?, Json.find?_insert]
    simp only [Command.withTicker, Rule.ofCandidate, ticker_eq hmember, hreport₁.trans (hreport₀.symm.trans hreport),
      hdirection₁.trans (hdirection₀.symm.trans hdirection),
      hconditions₁.trans (hconditions₀.symm.trans hconditions),
      hcombination₁.trans (hcombination₀.symm.trans hcombination)]
    split_ifs with hempty hsymbol hresolves
    · rfl
    · simp [bind, Except.bind, hresolves, pure, Except.pure]
    · simp [bind, Except.bind, hresolves, throw, throwThe, MonadExceptOf.throw]
    · rfl
  | null | bool | num | str | arr => cases hcandidate

theorem isTicker_iff {raw : String} :
    IsTicker (spelled raw) ↔ (spelled raw).isEmpty = false ∧ isSymbol (spelled raw) = true := by
  have hmember : present? [("ticker", .str raw)] "ticker" = some (.str raw) := by
    simp [present?, Json.find?]
  constructor
  · intro h
    have hticker := ticker_of_spelled h hmember
    rw [ticker_eq hmember] at hticker
    split_ifs at hticker with hempty hsymbol
    exact ⟨by simpa using hempty, hsymbol⟩
  · rintro ⟨hempty, hsymbol⟩
    have hticker : ticker [("ticker", .str raw)] = .ok (spelled raw) := by
      simp [ticker_eq hmember, hempty, hsymbol]
    exact ticker_isTicker hticker

end Candidate

namespace PriceDirectory

open Candidate

/-- **Listed tickers in strategies.** Let the directory of the prices hold any entries, and let a ticker that is listed
for it be put into a candidate that is otherwise valid. If its spelling is no symbol, the candidate is refused for it.
Otherwise the candidate is accepted, under the spelling, if there is a sheet for that in the directory; and a ticker
that is its own spelling has its daily sheet there, unless the entry of this name is a directory. -/
theorem listed_accepted {t : FileTree} {d : PriceDirectory} {place : List String}
    (hdirectory : t.find d.path = .ok (place, .directory)) :
    ∃ tickers, d.tickers t.disk = .ok tickers ∧
      ∀ ticker ∈ tickers, ∀ candidate, IsOtherwiseValid candidate →
        (¬ IsTicker (spelled ticker) → ∃ defect ∈ [Defect.tickerEmpty, .tickerInvalid ticker],
          Rule.ofCandidate (d.resolves t.disk) (Command.withTicker (some ticker) candidate) = .error defect) ∧
        (IsTicker (spelled ticker) →
          t.HasSheet place (spelled ticker) ∨
            spelled ticker = ticker ∧ t.node? (place ++ [fileName ticker .daily]) ≠ some .directory →
          ∃ r, Rule.ofCandidate (d.resolves t.disk) (Command.withTicker (some ticker) candidate) = .ok r ∧
            r.ticker = spelled ticker) := by
  obtain ⟨tickers, htickers, hentries⟩ := exists_tickers hdirectory
  refine ⟨tickers, htickers, fun ticker hmem candidate hvalid => ?_⟩
  obtain ⟨way, cs, mix, hread⟩ := hvalid.ofCandidate_withTicker
  rw [hread, isTicker_iff]
  constructor
  · intro hspelled
    by_cases hempty : (spelled ticker).isEmpty = true
    · exact ⟨.tickerEmpty, by simp, by rw [if_pos hempty]⟩
    · have hsymbol : ¬ isSymbol (spelled ticker) = true := fun h => hspelled ⟨by simpa using hempty, h⟩
      exact ⟨.tickerInvalid ticker, by simp, by rw [if_neg hempty, if_neg hsymbol]⟩
  · intro hspelled hhere
    have hsheet : t.HasSheet place (spelled ticker) := by
      rcases hhere with hsheet | ⟨hown, hfile⟩
      · exact hsheet
      · obtain ⟨node, hnode⟩ := hentries ticker hmem
        cases node with
        | directory => exact absurd hnode hfile
        | file bytes => exact ⟨.daily, bytes, hown.symm ▸ hnode⟩
    have hresolves := resolves_of_hasSheet hdirectory (isTicker_iff.mpr hspelled) hsheet
    simp [hspelled, hresolves]

/-- A directory with three daily sheets and the weekly one of the first. -/
def mixedSheets : FileTree :=
  ⟨[(["prices"], .directory), (["prices", "SPY.csv"], .file .empty), (["prices", "SPY_1wk.csv"], .file .empty),
    (["prices", "acme.csv"], .file .empty), (["prices", "S&P500.csv"], .file .empty)]⟩

theorem find_mixedSheets : mixedSheets.find "prices" = .ok (["prices"], .directory) := by
  simp [FileTree.find]
  rfl

theorem mem_tickers_mixedSheets : ∃ tickers, (PriceDirectory.mk "prices").tickers mixedSheets.disk = .ok tickers ∧
    ∀ ticker, ticker ∈ tickers ↔ ticker ∈ ["SPY", "acme", "S&P500"] := by
  have hlist : mixedSheets.disk.list "prices" = .ok ["SPY.csv", "SPY_1wk.csv", "acme.csv", "S&P500.csv"] := by
    show mixedSheets.list "prices" = _
    simp only [FileTree.list, find_mixedSheets]
    decide +kernel
  have hstems : ["SPY.csv", "SPY_1wk.csv", "acme.csv", "S&P500.csv"].filterMap tickerOf? =
      ["SPY", "acme", "S&P500"] := by
    decide +kernel
  simp only [tickers, hlist, hstems]
  exact ⟨_, rfl, fun ticker => List.mem_mergeSort⟩

theorem isOtherwiseValid_sample : IsOtherwiseValid Candidate.sample :=
  ⟨"SPY", _, rfl⟩

/-- The candidate with one of these tickers. -/
def sampleFor (ticker : String) : Json := Command.withTicker (some ticker) Candidate.sample

theorem listed_accepted_mixedSheets :
    ∃ tickers, (PriceDirectory.mk "prices").tickers mixedSheets.disk = .ok tickers ∧ "SPY" ∈ tickers ∧
      ∃ r, Rule.ofCandidate ((PriceDirectory.mk "prices").resolves mixedSheets.disk) (sampleFor "SPY") = .ok r ∧
        r.ticker = "SPY" := by
  obtain ⟨tickers, htickers, hmem⟩ := mem_tickers_mixedSheets
  have hlisted : "SPY" ∈ tickers := (hmem "SPY").mpr (by decide)
  have hspelled : spelled "SPY" = "SPY" := by decide +kernel
  have hsymbol : IsTicker (spelled "SPY") := isTicker_iff.mpr (by decide +kernel)
  have hfile : mixedSheets.node? (["prices"] ++ [fileName "SPY" .daily]) = some (.file .empty) := by
    simp [FileTree.node?, mixedSheets, fileName, suffix, Assoc.get?]
  obtain ⟨tickers', htickers', haccepted⟩ := listed_accepted (d := ⟨"prices"⟩) find_mixedSheets
  obtain rfl := Except.ok.inj (htickers.symm.trans htickers')
  obtain ⟨r, hr, hticker⟩ :=
    (haccepted "SPY" hlisted _ isOtherwiseValid_sample).2 hsymbol (.inr ⟨hspelled, by rw [hfile]; simp⟩)
  exact ⟨tickers, htickers, hlisted, r, hr, hticker.trans hspelled⟩

/-- Two tickers are listed and refused: one is no symbol, and the capitals of the other have no sheet. -/
theorem listed_refused :
    ∃ tickers, (PriceDirectory.mk "prices").tickers mixedSheets.disk = .ok tickers ∧
      "S&P500" ∈ tickers ∧ "acme" ∈ tickers ∧ IsOtherwiseValid Candidate.sample ∧
      Rule.ofCandidate ((PriceDirectory.mk "prices").resolves mixedSheets.disk) (sampleFor "S&P500") =
        .error (.tickerInvalid "S&P500") ∧
      Rule.ofCandidate ((PriceDirectory.mk "prices").resolves mixedSheets.disk) (sampleFor "acme") =
        .error (.unresolved "ACME") := by
  obtain ⟨tickers, htickers, hmem⟩ := mem_tickers_mixedSheets
  obtain ⟨way, cs, mix, hread⟩ := isOtherwiseValid_sample.ofCandidate_withTicker
  have hsheets : (PriceDirectory.mk "prices").sheets "ACME" =
      ["prices/ACME.csv", "prices/ACME_1wk.csv", "prices/ACME_1mo.csv"] := by
    decide +kernel
  have hmissing : ∀ path ∈ ["prices/ACME.csv", "prices/ACME_1wk.csv", "prices/ACME_1mo.csv"],
      mixedSheets.find path = .error .notFound := by
    simp [FileTree.find]
    exact ⟨rfl, rfl, rfl⟩
  have hunresolved : (PriceDirectory.mk "prices").resolves mixedSheets.disk "ACME" = false := by
    rw [resolves, hsheets, List.any_eq_false]
    intro path hpath
    show ¬ mixedSheets.isFile path = true
    rw [FileTree.isFile, hmissing path hpath]
    simp
  have hindex : (spelled "S&P500").isEmpty = false ∧ isSymbol (spelled "S&P500") = false := by decide +kernel
  have hacme : spelled "acme" = "ACME" ∧ isSymbol "ACME" = true := by decide +kernel
  refine ⟨tickers, htickers, (hmem _).mpr (by decide), (hmem _).mpr (by decide), isOtherwiseValid_sample, ?_, ?_⟩
  · rw [sampleFor, hread, hindex.1, hindex.2]
    rfl
  · rw [sampleFor, hread, hacme.1, hacme.2, hunresolved]
    rfl

end PriceDirectory

end Backtest
