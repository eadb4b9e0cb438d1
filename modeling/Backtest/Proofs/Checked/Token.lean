import Backtest.Rule.Candidate
import Backtest.Proofs.SoundRule
import Backtest.Proofs.Checked.Access

/-!
# Candidates by positions

A token is cut into a name and its parameters at byte positions: in front of the first parenthesis and one byte
behind it, or in front of the first digit. A cut inside of a character traps. `ofCandidate_eq`: every candidate
whose strings have less than `2 ^ 64` bytes is read without a trap, since each cut is next to a character that
was found there and the parenthesis is one byte.
-/

namespace Backtest

/-- Every string of a value has less than `2 ^ 64` bytes. -/
inductive Json.Fits : Json → Prop where
  | null : Fits .null
  | bool (b : Bool) : Fits (.bool b)
  | num (n : Json.Number) : Fits (.num n)
  | str {s : String} (bytes : s.utf8ByteSize < 2 ^ 64) : Fits (.str s)
  | arr {items : List Json} (fit : ∀ item ∈ items, Fits item) : Fits (.arr items)
  | obj {members : List (String × Json)} (fit : ∀ m ∈ members, Fits m.2) : Fits (.obj members)

namespace Checked

/-! ## Byte positions -/

/-- The number of bytes of some characters. -/
def bytes (cs : List Char) : Nat := (cs.map Char.utf8Size).sum

@[simp] theorem bytes_cons (c : Char) (cs : List Char) : bytes (c :: cs) = c.utf8Size + bytes cs := rfl

@[simp] theorem bytes_append (xs ys : List Char) : bytes (xs ++ ys) = bytes xs + bytes ys := by
  rw [bytes, List.map_append, List.sum_append]
  rfl

/-- What is left behind a byte position. -/
def dropBytes : List Char → Nat → Checked (List Char)
  | cs, 0 => .ok cs
  | [], _ + 1 => .error .slice
  | c :: cs, n + 1 => if c.utf8Size ≤ n + 1 then dropBytes cs (n + 1 - c.utf8Size) else .error .slice

/-- What stands in front of a byte position. -/
def takeBytes : List Char → Nat → Checked (List Char)
  | _, 0 => .ok []
  | [], _ + 1 => .error .slice
  | c :: cs, n + 1 =>
    if c.utf8Size ≤ n + 1 then do
      let rest ← takeBytes cs (n + 1 - c.utf8Size)
      .ok (c :: rest)
    else .error .slice

/-- The byte position of the first character that passes a test. -/
def findByte? (test : Char → Bool) (cs : List Char) : Option Nat :=
  match cs.dropWhile fun c => !test c with
  | [] => none
  | _ :: _ => some (bytes (cs.takeWhile fun c => !test c))

theorem exists_bytes_cons (c : Char) (cs : List Char) : ∃ n, bytes (c :: cs) = n + 1 :=
  Nat.exists_eq_add_one.mpr (Nat.add_pos_left c.utf8Size_pos (bytes cs))

theorem dropBytes_append (xs ys : List Char) : dropBytes (xs ++ ys) (bytes xs) = .ok ys := by
  induction xs with
  | nil => cases ys <;> rfl
  | cons x xs ih =>
    obtain ⟨n, hn⟩ := exists_bytes_cons x xs
    rw [hn, List.cons_append, dropBytes, ← hn, bytes_cons, if_pos (Nat.le_add_right _ _), Nat.add_sub_cancel_left,
      ih]

theorem takeBytes_append (xs ys : List Char) : takeBytes (xs ++ ys) (bytes xs) = .ok xs := by
  induction xs with
  | nil => cases ys <;> rfl
  | cons x xs ih =>
    obtain ⟨n, hn⟩ := exists_bytes_cons x xs
    rw [hn, List.cons_append, takeBytes, ← hn, bytes_cons, if_pos (Nat.le_add_right _ _), Nat.add_sub_cancel_left,
      ih, ok_bind]

/-! ## Tokens -/

/-- The name and the parameters of a token. -/
def split? (cs : List Char) : Checked (Option (List Char × List (List Char))) :=
  match findByte? (· = '(') cs with
  | some opening => do
    let inside ← dropBytes cs (← add opening 1)
    if inside.getLast? = some ')' then
      let name ← takeBytes cs opening
      .ok (some (Token.trimUnderscores name, (Text.splitOn ',' inside.dropLast).map Text.trim))
    else .ok none
  | none => do
    let digitsAt := (findByte? Char.isDigit cs).getD (bytes cs)
    let name ← takeBytes cs digitsAt
    let digits ← dropBytes cs digitsAt
    .ok (some (Token.trimUnderscores name, if digits.isEmpty then [] else [digits]))

/-- The cut in front of the first character that passes a test, or at the end if there is none. -/
theorem getD_findByte? (test : Char → Bool) (cs : List Char) :
    (findByte? test cs).getD (bytes cs) = bytes (cs.takeWhile fun c => !test c) := by
  have hparts := List.takeWhile_append_dropWhile (p := fun c => !test c) (l := cs)
  rw [findByte?]
  cases hrest : cs.dropWhile fun c => !test c with
  | nil =>
    rw [hrest, List.append_nil] at hparts
    rw [Option.getD_none, hparts]
  | cons c rest => rfl

/-- A token is cut next to a character that was found, and a parenthesis is one byte. -/
theorem split?_eq {cs : List Char} (h : bytes cs < 2 ^ 64) : split? cs = .ok (Token.split? cs) := by
  simp only [split?, Token.split?, ne_eq, decide_not]
  have hparts := List.takeWhile_append_dropWhile (p := fun c => !decide (c = '(')) (l := cs)
  have hfirst := List.head?_dropWhile_not (fun c => !decide (c = '(')) cs
  rw [findByte?]
  -- the parts around the cut are known as lists, and so where the cut is
  cases hrest : cs.dropWhile fun c => !decide (c = '(') with
  | cons c rest =>
    obtain rfl : c = '(' := by simpa [hrest] using hfirst
    have hdrop := dropBytes_append ((cs.takeWhile fun c => !decide (c = '(')) ++ ['(']) rest
    have htake := takeBytes_append (cs.takeWhile fun c => !decide (c = '(')) ('(' :: rest)
    rw [List.append_assoc, List.singleton_append, ← hrest, hparts, bytes_append] at hdrop
    rw [← hrest, hparts] at htake
    have hsize := congrArg bytes hparts
    rw [hrest, bytes_append, bytes_cons] at hsize
    have hone : Char.utf8Size '(' = 1 := rfl
    simp only [add_eq (show bytes (cs.takeWhile fun c => !decide (c = '(')) + 1 < 2 ^ 64 by omega), ok_bind,
      show dropBytes cs (bytes (cs.takeWhile fun c => !decide (c = '(')) + 1) = .ok rest from hdrop, htake]
    split_ifs <;> rfl
  | nil =>
    have hdigits := List.takeWhile_append_dropWhile (p := fun c => !c.isDigit) (l := cs)
    have htake := takeBytes_append (cs.takeWhile fun c => !c.isDigit) (cs.dropWhile fun c => !c.isDigit)
    have hdrop := dropBytes_append (cs.takeWhile fun c => !c.isDigit) (cs.dropWhile fun c => !c.isDigit)
    rw [hdigits] at htake hdrop
    simp only [getD_findByte?, htake, hdrop, ok_bind]

/-- A small letter and its capital letter are one byte. -/
theorem utf8Size_toUpper (c : Char) : c.toUpper.utf8Size = c.utf8Size := by
  have hone {d : Char} (h : d.toNat ≤ 127) : d.utf8Size = 1 :=
    Char.utf8Size_eq_one_iff.mpr (UInt32.le_iff_toNat_le.mpr h)
  by_cases hc : c.isLower = true
  · have hbounds := isLower_iff.mp hc
    have hupper : c.toUpper.toNat = c.toNat - 32 := by
      rw [Char.toUpper_eq_of_isLower hc, Char.toNat_ofNat, if_pos]
      exact .inl (by omega)
    rw [hone (by omega), hone (by omega)]
  · rw [Char.toUpper_eq_of_not_isLower hc]

theorem utf8Size_underscored (c : Char) : (if c = ' ' ∨ c = '-' then '_' else c).utf8Size = c.utf8Size := by
  split_ifs with h
  · rcases h with rfl | rfl <;> rfl
  · rfl

/-- The bytes of the characters that a token is read from are not more than those of its text. -/
theorem bytes_token_le (text : String) :
    bytes (Token.underscored (Text.upper (Text.trim text.toList))) ≤ text.utf8ByteSize := by
  have hmap {f : Char → Char} (hf : ∀ c, (f c).utf8Size = c.utf8Size) (cs : List Char) :
      bytes (cs.map f) = bytes cs := by
    rw [bytes, List.map_map]
    exact congrArg List.sum (List.map_congr_left fun c _ => hf c)
  have htrim : bytes (Text.trim text.toList) ≤ bytes text.toList := by
    have hleft : (Text.trimLeft text.toList).Sublist text.toList := List.dropWhile_sublist _
    have hright : (Text.trimRight (Text.trimLeft text.toList)).Sublist (Text.trimLeft text.toList) := by
      rw [Text.trimRight, ← List.reverse_sublist, List.reverse_reverse]
      exact List.dropWhile_sublist _
    exact ((hright.trans hleft).map Char.utf8Size).sum_le_sum fun _ _ => Nat.zero_le _
  have htext : bytes text.toList = text.utf8ByteSize := by
    rw [bytes, ← utf8ByteSize_ofList, String.ofList_toList]
  rw [Token.underscored, hmap utf8Size_underscored, Text.upper, hmap utf8Size_toUpper]
  exact htrim.trans_eq htext

def readSource? (text : String) : Checked (Option Source) :=
  let cs := Token.underscored (Text.upper (Text.trim text.toList))
  match String.ofList cs with
  | "PRICE" | "CLOSE" => .ok (some .price)
  | "VOLUME" => .ok (some .volume)
  | _ => do
    match ← split? cs with
    | some (name, parameters) => .ok (Token.indicator? (String.ofList name) parameters)
    | none => .ok none

theorem readSource?_eq {text : String} (h : text.utf8ByteSize < 2 ^ 64) :
    readSource? text = .ok (Source.read? text) := by
  rw [readSource?, Source.read?]
  have hsplit := split?_eq ((bytes_token_le text).trans_lt h)
  simp only [hsplit, ok_bind]
  generalize String.ofList (Token.underscored (Text.upper (Text.trim text.toList))) = name
  split
  · rfl
  · rfl
  · rfl
  · cases Token.split? (Token.underscored (Text.upper (Text.trim text.toList))) <;> simp

/-! ## Conditions -/

/-- The source that a condition names as its indicator. -/
def left (members : Candidate.Members) : Answer ConditionDefect Source := do
  let raw ← answer (Candidate.stringMember members "indicator")
  match ← lift (readSource? raw) with
  | some s => pure s
  | none => throw (.unknownIndicator raw)

/-- The right side of a condition. -/
def value (members : Candidate.Members) : Answer ConditionDefect (Operand Float) :=
  match Candidate.present? members "value" with
  | none => throw (.missing "value")
  | some (.num n) => pure (.constant n.toFloat)
  | some (.str raw) =>
    match Candidate.constant? raw with
    | some x => pure (.constant x)
    | none => do
      match ← lift (readSource? raw) with
      | some s => pure (.source s)
      | none => throw (.unknownValue ("'" ++ raw ++ "'"))
  | some other => throw (.unknownValue other.compact)

def condition : Json → Answer ConditionDefect (Condition Float)
  | .obj members => do
    let left ← left members
    let operator ← answer (Candidate.operator members)
    let right ← value members
    answer (Candidate.checkDomain left right)
    answer (Candidate.checkSelf left right)
    answer (Candidate.checkParameters left)
    answer (Candidate.checkOperand right)
    pure ⟨.source left, operator, right⟩
  | _ => throw .notObject

/-- The conditions from an index on. -/
def conditionsFrom (index : Nat) : List Json → Answer Defect (List (Condition Float))
  | [] => pure []
  | item :: rest => do
    let c ← refusing (.condition index) (condition item)
    let cs ← conditionsFrom (index + 1) rest
    pure (c :: cs)

def conditions (members : Candidate.Members) : Answer Defect (List (Condition Float)) :=
  match Candidate.present? members "conditions" with
  | none => throw .conditionsMissing
  | some (.arr []) => throw .conditionsEmpty
  | some (.arr items) => conditionsFrom 0 items
  | some _ => throw .conditionsNotList

/-- The rule of a candidate. -/
def ofCandidate (resolves : String → Bool) : Json → Answer Defect (Rule Float)
  | .obj members => do
    answer (Candidate.checkReport members)
    let ticker ← answer (Candidate.ticker members)
    let direction ← answer (Candidate.direction members)
    let conditions ← conditions members
    let combination ← answer (Candidate.combination members)
    if resolves ticker then pure ⟨ticker, direction, conditions, combination⟩
    else throw (.unresolved ticker)
  | _ => throw .notObject

section

variable {members : Candidate.Members}

/-- A member of a value that fits does so too. -/
theorem fits_of_present? (h : (Json.obj members).Fits) {name : String} {v : Json}
    (hv : Candidate.present? members name = some v) : v.Fits := by
  obtain ⟨m, hm, rfl⟩ := Option.map_eq_some_iff.mp (Candidate.find?_of_present? hv)
  cases h with
  | obj fit => exact fit m (List.mem_of_find?_eq_some hm)

theorem bytes_of_stringMember (h : (Json.obj members).Fits) {name raw : String}
    (hraw : Candidate.stringMember members name = .ok raw) : raw.utf8ByteSize < 2 ^ 64 := by
  unfold Candidate.stringMember at hraw
  split at hraw
  · cases hraw
  · rename_i s hpresent
    cases fits_of_present? h hpresent with
    | str hbytes => exact Except.ok.inj hraw ▸ hbytes
  · cases hraw

theorem left_eq (h : (Json.obj members).Fits) : left members = answer (Candidate.left members) := by
  rw [left, Candidate.left]
  refine answer_bind fun raw hraw => ?_
  rw [readSource?_eq (bytes_of_stringMember h hraw), lift_ok_bind]
  cases Source.read? raw <;> rfl

theorem value_eq (h : (Json.obj members).Fits) : value members = answer (Candidate.value members) := by
  rw [value, Candidate.value]
  cases hpresent : Candidate.present? members "value" with
  | none => rfl
  | some v =>
    cases v with
    | str raw =>
      cases fits_of_present? h hpresent with
      | str hbytes =>
        simp only [readSource?_eq hbytes, lift_ok_bind]
        cases Candidate.constant? raw with
        | some x => rfl
        | none => cases Source.read? raw <;> rfl
    | _ => rfl

end

theorem condition_eq {item : Json} (h : item.Fits) : condition item = answer (Candidate.condition item) := by
  cases item with
  | obj members =>
    rw [condition, Candidate.condition, left_eq h, value_eq h]
    exact answer_bind fun left _ => answer_bind fun operator _ => answer_bind fun right _ =>
      answer_bind fun _ _ => answer_bind fun _ _ => answer_bind fun _ _ => answer_bind fun _ _ => rfl
  | _ => rfl

theorem conditionsFrom_eq {items : List Json} (h : ∀ item ∈ items, item.Fits) :
    ∀ index, conditionsFrom index items = answer (Candidate.conditionsFrom index items) := by
  induction items with
  | nil => exact fun _ => rfl
  | cons item rest ih =>
    intro index
    rw [conditionsFrom, Candidate.conditionsFrom, condition_eq (h item List.mem_cons_self), refusing_answer,
      ih (fun j hj => h j (List.mem_cons_of_mem item hj))]
    cases Candidate.condition item with
    | error defect => rfl
    | ok c => exact answer_bind fun cs _ => rfl

theorem conditions_eq {members : Candidate.Members} (h : (Json.obj members).Fits) :
    conditions members = answer (Candidate.conditions members) := by
  rw [conditions, Candidate.conditions]
  cases hpresent : Candidate.present? members "conditions" with
  | none => rfl
  | some v =>
    cases v with
    | arr items =>
      cases fits_of_present? h hpresent with
      | arr hitems =>
        cases items with
        | nil => rfl
        | cons item rest => exact conditionsFrom_eq hitems 0
    | _ => rfl

/-- **Candidates by positions.** A candidate is read without a trap, into what the program makes of it. -/
theorem ofCandidate_eq (resolves : String → Bool) {candidate : Json} (h : candidate.Fits) :
    ofCandidate resolves candidate = answer (Rule.ofCandidate resolves candidate) := by
  cases candidate with
  | obj members =>
    rw [ofCandidate, Rule.ofCandidate, conditions_eq h]
    refine answer_bind fun _ _ => answer_bind fun ticker _ => answer_bind fun direction _ =>
      answer_bind fun conditions _ => answer_bind fun combination _ => ?_
    split_ifs <;> rfl
  | _ => rfl

end Checked

end Backtest
