import Backtest.Files.Tree
import Backtest.PriceDirectory
import Backtest.Proofs.Spelling

/-!
# Paths of sheets

The ticker of an accepted rule may come from anywhere, and it becomes part of a path. It has none of the characters
that lead to another directory, and no underscore, which sets the mark of a timeframe apart from the ticker. So the
name of a sheet is a single name (`isSingleName_fileName`) from which both can be told (`fileName_injective`). A
single name leads one step down from whatever directory it is joined to (`Disk.IsEntry.join`).

`PriceDirectory.filePath_apart` puts this together for all rules and timeframes.
-/

namespace Backtest

/-! ## One step down -/

/-- A name that leads down by one step: it stays nowhere, goes up nowhere, and has no separator of any system. -/
structure IsSingleName (name : String) : Prop where
  nonempty : name ≠ ""
  notHere : name ≠ "."
  notUp : name ≠ ".."
  noSlash : '/' ∉ name.toList
  noBackslash : '\\' ∉ name.toList

namespace Disk

/-- The names on a path that lead anywhere: empty ones, as between two slashes, and `.` do not. -/
def steps (path : String) : List String :=
  (FileTree.names path).filter fun name => name ≠ "" ∧ name ≠ "."

/-- A path that is a directory's own, with a single name behind. -/
structure IsEntry (directory name path : String) : Prop where
  single : IsSingleName name
  joined : path = join directory name
  root : path.startsWith "/" = directory.startsWith "/"
  steps : steps path = steps directory ++ [name]

end Disk

namespace FileTree

theorem names_of_not_mem {name : String} (h : '/' ∉ name.toList) : names name = [name] := by
  rw [names, Text.splitOn_eq, List.splitOn_eq_singleton h, List.map_singleton, String.ofList_toList]

theorem names_slash (front back : String) : names (front ++ "/" ++ back) = names front ++ names back := by
  have hslash : "/".toList = ['/'] := rfl
  simp only [names, Text.splitOn_eq, String.toList_append, hslash, List.append_assoc, List.singleton_append,
    List.splitOn_append_cons_self, List.map_append]

end FileTree

namespace Disk

variable {directory name : String}

theorem not_startsWith_slash (h : '/' ∉ name.toList) : name.startsWith "/" = false := by
  rw [String.startsWith_string_eq_false_iff]
  exact fun hslash => h (hslash.subset List.mem_cons_self)

/-- A name without slashes is joined to a directory by the one slash between them. -/
theorem join_eq (hdirectory : directory ≠ "") (hname : '/' ∉ name.toList) :
    join directory name = if directory.endsWith "/" then directory ++ name else directory ++ "/" ++ name := by
  have hnonempty : directory.isEmpty = false := by
    rwa [Bool.eq_false_iff, ne_eq, String.isEmpty_iff]
  rw [join, hnonempty, not_startsWith_slash hname]
  rfl

end Disk

/-- Below a directory stand its own names, except for the empty one behind a slash at the end, and then the name. -/
theorem FileTree.names_join {directory name : String} (hdirectory : directory ≠ "") (hname : '/' ∉ name.toList) :
    ∃ front, (names directory = front ∨ names directory = front ++ [""]) ∧
      names (Disk.join directory name) = front ++ [name] := by
  rw [Disk.join_eq hdirectory hname]
  split_ifs with hslash
  · rw [← String.endsWith_toSlice, String.Slice.endsWith_string_iff, String.copy_toSlice] at hslash
    obtain ⟨front, hfront⟩ := hslash
    have heq : directory = String.ofList front ++ "/" ++ "" := by
      apply String.toList_injective
      rw [← hfront]
      simp
    refine ⟨names (String.ofList front), .inr ?_, ?_⟩
    · rw [heq, names_slash]
      rfl
    · rw [heq, String.append_empty, names_slash, names_of_not_mem hname]
  · exact ⟨names directory, .inl rfl, by rw [names_slash, names_of_not_mem hname]⟩

namespace Disk

variable {directory name : String}

theorem steps_join (h : IsSingleName name) : steps (join directory name) = steps directory ++ [name] := by
  have hname : [name].filter (fun name => decide (name ≠ "" ∧ name ≠ ".")) = [name] := by
    simp [h.nonempty, h.notHere]
  by_cases hdirectory : directory = ""
  · subst hdirectory
    rw [show join "" name = name from rfl, steps, FileTree.names_of_not_mem h.noSlash, hname]
    rfl
  · obtain ⟨front, hfront, hjoin⟩ := FileTree.names_join hdirectory h.noSlash
    have hsteps : steps directory = front.filter fun name => decide (name ≠ "" ∧ name ≠ ".") := by
      rcases hfront with hfront | hfront <;> simp [steps, hfront]
    rw [hsteps, steps, hjoin, List.filter_append, hname]

theorem startsWith_join (h : '/' ∉ name.toList) :
    (join directory name).startsWith "/" = directory.startsWith "/" := by
  by_cases hdirectory : directory = ""
  · subst hdirectory
    exact not_startsWith_slash h
  · obtain ⟨c, rest, hcs⟩ := List.exists_cons_of_ne_nil (mt String.toList_eq_nil_iff.mp hdirectory)
    rw [Bool.eq_iff_iff, String.startsWith_string_iff, String.startsWith_string_iff, join_eq hdirectory h]
    split_ifs <;> simp [hcs]

theorem IsEntry.join (h : IsSingleName name) (directory : String) :
    IsEntry directory name (join directory name) :=
  ⟨h, rfl, startsWith_join h.noSlash, steps_join h⟩

end Disk

/-! ## Names of sheets -/

namespace PriceDirectory

/-- What stands between the ticker and the suffix. -/
def mark : Timeframe → String
  | .daily => ""
  | timeframe => "_" ++ timeframe.text

theorem fileName_eq (ticker : String) (timeframe : Timeframe) :
    fileName ticker timeframe = ticker ++ (mark timeframe ++ suffix) := by
  cases timeframe <;> simp [fileName, mark, String.append_assoc]

/-- The characters of a ticker are none of those with a meaning in a path or in the name of a sheet. -/
theorem not_mem_ticker {ticker : String} (h : IsTicker ticker) {c : Char} (hc : isTickerChar c = false) :
    c ∉ ticker.toList := by
  intro hmem
  rw [h.chars c hmem] at hc
  cases hc

theorem not_mem_fileName {ticker : String} (h : IsTicker ticker) {c : Char} (hc : isTickerChar c = false)
    {timeframe : Timeframe} (hrest : c ∉ (mark timeframe ++ suffix).toList) :
    c ∉ (fileName ticker timeframe).toList := by
  rw [fileName_eq, String.toList_append, List.mem_append, not_or]
  exact ⟨not_mem_ticker h hc, hrest⟩

theorem isSingleName_fileName {ticker : String} (h : IsTicker ticker) (timeframe : Timeframe) :
    IsSingleName (fileName ticker timeframe) := by
  have hlength : 4 ≤ (fileName ticker timeframe).length := by
    rw [fileName_eq, String.length_append, String.length_append]
    exact Nat.le_trans (Nat.le_add_left _ _) (Nat.le_add_left _ _)
  have hne : ∀ {word : String}, word.length < 4 → fileName ticker timeframe ≠ word := by
    rintro word hword rfl
    omega
  constructor
  · exact hne (by decide)
  · exact hne (by decide)
  · exact hne (by decide)
  · exact not_mem_fileName h rfl (by cases timeframe <;> decide)
  · exact not_mem_fileName h rfl (by cases timeframe <;> decide)

theorem mark_injective {timeframe timeframe' : Timeframe} (h : mark timeframe = mark timeframe') :
    timeframe = timeframe' := by
  revert h
  cases timeframe <;> cases timeframe' <;> decide

/-- A ticker ends in front of the first underscore. -/
theorem takeWhile_ticker {ticker : String} (h : IsTicker ticker) (timeframe : Timeframe) :
    (ticker.toList ++ (mark timeframe).toList).takeWhile (fun c => decide (c ≠ '_')) = ticker.toList := by
  have hticker : ∀ c ∈ ticker.toList, decide (c ≠ '_') = true := by
    intro c hc
    rw [decide_eq_true_iff]
    rintro rfl
    exact not_mem_ticker h rfl hc
  have hmark : (mark timeframe).toList.takeWhile (fun c => decide (c ≠ '_')) = [] := by
    cases timeframe <;> rfl
  rw [List.takeWhile_append_of_pos hticker, hmark, List.append_nil]

theorem fileName_injective {ticker ticker' : String} (h : IsTicker ticker) (h' : IsTicker ticker')
    {timeframe timeframe' : Timeframe} (hsame : fileName ticker timeframe = fileName ticker' timeframe') :
    ticker = ticker' ∧ timeframe = timeframe' := by
  rw [fileName_eq, fileName_eq, ← String.append_assoc, ← String.append_assoc] at hsame
  have hchars := congrArg String.toList hsame
  simp only [String.toList_append, List.append_cancel_right_eq] at hchars
  have hticker : ticker.toList = ticker'.toList := by
    rw [← takeWhile_ticker h timeframe, ← takeWhile_ticker h' timeframe', hchars]
  rw [hticker, List.append_cancel_left_eq] at hchars
  exact ⟨String.toList_injective hticker, mark_injective (String.toList_injective hchars)⟩

theorem isEntry_filePath {ticker : String} (h : IsTicker ticker) (d : PriceDirectory) (timeframe : Timeframe) :
    Disk.IsEntry d.path (fileName ticker timeframe) (d.filePath ticker timeframe) :=
  .join (isSingleName_fileName h timeframe) d.path

/-- **Each sheet is a file of its own in the directory.** Whatever candidates are accepted, and for whichever tickers
there are prices, the sheet of a rule for a timeframe lies directly in the directory under a single name, and no other
ticker and no other timeframe have a path that leads there. -/
theorem filePath_apart (d : PriceDirectory) {resolves : String → Bool} {candidate : Json} {r : Rule Float}
    (h : Rule.ofCandidate resolves candidate = .ok r) (timeframe : Timeframe) :
    Disk.IsEntry d.path (fileName r.ticker timeframe) (d.filePath r.ticker timeframe) ∧
      ∀ resolves' candidate' r' timeframe', Rule.ofCandidate resolves' candidate' = .ok r' →
        Disk.steps (d.filePath r'.ticker timeframe') = Disk.steps (d.filePath r.ticker timeframe) →
          r'.ticker = r.ticker ∧ timeframe' = timeframe := by
  have hticker := (Rule.isSound_of_ofCandidate h).ticker
  have hentry := isEntry_filePath hticker d timeframe
  refine ⟨hentry, fun resolves' candidate' r' timeframe' h' hsame => ?_⟩
  have hticker' := (Rule.isSound_of_ofCandidate h').ticker
  rw [(isEntry_filePath hticker' d timeframe').steps, hentry.steps] at hsame
  have hname := List.append_cancel_left hsame
  exact fileName_injective hticker' hticker (List.singleton_injective hname)

/-- The weekly sheet of a ticker that was written with blanks and in small letters. -/
theorem filePath_apart_sample :
    ∃ r, Rule.ofCandidate (fun ticker => ticker = "SPY") Candidate.sample = .ok r ∧
      Disk.IsEntry "prices/" "SPY_1wk.csv" "prices/SPY_1wk.csv" ∧
      ∀ resolves' candidate' r' timeframe', Rule.ofCandidate resolves' candidate' = .ok r' →
        Disk.steps ((PriceDirectory.mk "prices/").filePath r'.ticker timeframe') = ["prices", "SPY_1wk.csv"] →
          r'.ticker = "SPY" ∧ timeframe' = .weekly := by
  obtain ⟨r, hr⟩ : ∃ r, Rule.ofCandidate (fun ticker => ticker = "SPY") Candidate.sample = .ok r :=
    ⟨_, rfl⟩
  obtain ⟨members, -, -, -, -, -, -, hresolves⟩ := Rule.ofCandidate_eq_ok_iff.mp hr
  have hticker : r.ticker = "SPY" := of_decide_eq_true hresolves
  have hpath : (PriceDirectory.mk "prices/").filePath "SPY" .weekly = "prices/SPY_1wk.csv" := by decide +kernel
  have hsteps : Disk.steps "prices/SPY_1wk.csv" = ["prices", "SPY_1wk.csv"] := by decide +kernel
  have hapart := filePath_apart ⟨"prices/"⟩ hr .weekly
  rw [hticker, hpath, hsteps] at hapart
  exact ⟨r, hr, hapart⟩

end PriceDirectory

end Backtest
