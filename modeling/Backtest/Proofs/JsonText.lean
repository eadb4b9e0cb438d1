import Backtest.Proofs.JsonGrammar
import Backtest.Proofs.Quoted

/-!
# Written texts

What is written on one line or in lines is a JSON text of the value: `Json.spells_compact`, `Json.spells_pretty`. So
it is a text of no other value, and whoever reads JSON reads this one.

A text between quotes is taken character by character: each is written as itself or behind a backslash, control
characters without a letter by their number (`Json.spellsText_escape`).
-/

namespace Backtest.Json

/-! ## Words, numbers and texts -/

theorem isBlank_space : IsBlank [' '] := by
  intro c hc
  exact .inl (List.mem_singleton.mp hc)

theorem isBlank_newLine (level : ℕ) : IsBlank (newLine level).toList := by
  intro c hc
  simp only [newLine, String.toList_append, String.toList_ofList, List.mem_append, List.mem_replicate] at hc
  rcases hc with hc | ⟨-, rfl⟩
  · obtain rfl : c = '\n' := List.mem_singleton.mp hc
    exact .inr (.inl rfl)
  · exact .inl rfl

theorem spells_bool (b : Bool) : Spells (if b then "true" else "false").toList (bool b) := by
  cases b with
  | false => exact .false
  | true => exact .true

theorem spells_number (n : Number) : Spells n.write.toList (num n) := by
  cases n with
  | whole i =>
    rw [Number.write, String.toList_append, toList_natText]
    obtain ⟨k, rfl⟩ | ⟨k, rfl⟩ : (∃ k : ℕ, i = k) ∨ ∃ k : ℕ, i = -((k + 1 : ℕ) : ℤ) := by
      cases i with
      | ofNat k => exact .inl ⟨k, rfl⟩
      | negSucc k => exact .inr ⟨k, rfl⟩
    · rw [if_neg (by omega), Int.natAbs_natCast]
      exact .num (.natural k)
    · rw [if_pos (by omega), Int.natAbs_neg, Int.natAbs_natCast]
      exact .num (.negative (k + 1) (Nat.succ_pos k))
  | real x hx =>
    obtain ⟨n, htext, hwell, hreal, hread⟩ := Decimal.exists_numeral_write hx
    rw [Number.write, ← htext]
    exact .num (.real n hwell hreal hx hread)

theorem charOfCode?_control {n : ℕ} (hn : n < 32) :
    charOfCode? ['0', '0', hexDigit (n / 16), hexDigit (n % 16)] = some (Char.ofNat n) := by
  interval_cases n <;> rfl

/-- A character stands for itself, whether it is escaped or not. -/
theorem spellsText_escape (c : Char) {cs s : List Char} (h : SpellsText cs s) :
    SpellsText (escape c ++ cs) (c :: s) := by
  have hself : Char.ofNat c.toNat = c := Char.ofNat_toNat c
  unfold escape
  split_ifs with hquote hslash hline hreturn htab hback hfeed hcontrol
  · rw [hquote]
    exact .escaped rfl h
  · rw [hslash]
    exact .escaped rfl h
  · rw [hline]
    exact .escaped rfl h
  · rw [hreturn]
    exact .escaped rfl h
  · rw [htab]
    exact .escaped rfl h
  · rw [← hself, hback]
    exact .escaped rfl h
  · rw [← hself, hfeed]
    exact .escaped rfl h
  · have hcoded := charOfCode?_control hcontrol
    rw [hself] at hcoded
    exact .coded rfl hcoded h
  · exact .plain hquote hslash (not_lt.mp hcontrol) h

theorem spellsText_escaped (s : List Char) : SpellsText (s.flatMap escape) s := by
  induction s with
  | nil => exact .nil
  | cons c s ih => exact spellsText_escape c ih

theorem spells_quoted (s : String) : Spells (quoted s).toList (str s) := by
  rw [toList_quoted]
  exact .str (spellsText_escaped s.toList)

/-! ## Values on one line -/

mutual

theorem spells_compact : ∀ v : Json, Spells v.compact.toList v
  | .null => .null
  | .bool b => spells_bool b
  | .num n => spells_number n
  | .str s => spells_quoted s
  | .arr [] => .noItems
  | .arr (x :: rest) => by
    rw [compact, String.toList_append, String.toList_append]
    exact .arr (spellsItems_compact (x :: rest) (List.cons_ne_nil x rest))
  | .obj [] => .noMembers
  | .obj (m :: rest) => by
    rw [compact, String.toList_append, String.toList_append]
    exact .obj (spellsMembers_compact (m :: rest) (List.cons_ne_nil m rest))

theorem spellsItems_compact : ∀ items : List Json, items ≠ [] → SpellsItems (compactItems items).toList items
  | [], h => absurd rfl h
  | [x], _ => .single (spells_compact x)
  | x :: y :: rest, _ => by
    rw [compactItems, String.toList_append, String.toList_append, List.append_assoc]
    exact .cons (spells_compact x) (spellsItems_compact (y :: rest) (List.cons_ne_nil y rest))

theorem spellsMembers_compact : ∀ members : List (String × Json), members ≠ [] →
    SpellsMembers (compactMembers members).toList members
  | [], h => absurd rfl h
  | [(k, v)], _ => by
    rw [compactMembers, String.toList_append, String.toList_append, List.append_assoc]
    exact .single (spells_quoted k) (spells_compact v)
  | (k, v) :: m :: rest, _ => by
    rw [compactMembers, String.toList_append, String.toList_append, String.toList_append, String.toList_append,
      List.append_assoc, List.append_assoc (quoted k).toList]
    exact .cons (spells_quoted k) (spells_compact v) (spellsMembers_compact (m :: rest) (List.cons_ne_nil m rest))

end

/-! ## Values in lines -/

section

variable {cs left right : List Char} {v : Json}

theorem Spells.behind (h : Spells cs v) (hleft : IsBlank left) : Spells (left ++ cs) v := by
  have hblank := Spells.blank hleft h isBlank_nil
  rwa [List.append_nil] at hblank

theorem Spells.before (h : Spells cs v) (hright : IsBlank right) : Spells (cs ++ right) v :=
  Spells.blank isBlank_nil h hright

/-- The last of some values may stand before blanks. -/
theorem SpellsItems.before {items : List Json} (hright : IsBlank right) :
    ∀ {cs}, SpellsItems cs items → SpellsItems (cs ++ right) items
  | _, .single h => .single (h.before hright)
  | _, .cons h hitems => by
    rw [List.append_assoc, List.cons_append]
    exact .cons h (hitems.before hright)

theorem SpellsMembers.before {members : List (String × Json)} (hright : IsBlank right) :
    ∀ {cs}, SpellsMembers cs members → SpellsMembers (cs ++ right) members
  | _, .single hname h => by
    rw [List.append_assoc, List.cons_append]
    exact .single hname (h.before hright)
  | _, .cons hname h hmembers => by
    rw [List.append_assoc, List.cons_append]
    exact .cons hname h (hmembers.before hright)

end

mutual

theorem spells_prettyAt : ∀ (level : ℕ) (v : Json), Spells (prettyAt level v).toList v
  | level, .null => by
    rw [prettyAt]
    exact .null
  | level, .bool b => by
    rw [prettyAt]
    exact spells_bool b
  | level, .num n => by
    rw [prettyAt]
    exact spells_number n
  | level, .str s => by
    rw [prettyAt]
    exact spells_quoted s
  | level, .arr [] => by
    rw [prettyAt]
    exact .noItems
  | level, .arr (x :: rest) => by
    rw [prettyAt, String.toList_append, String.toList_append, String.toList_append,
      List.append_assoc "[".toList]
    exact .arr ((spellsItems_pretty (level + 1) (x :: rest) (List.cons_ne_nil x rest)).before (isBlank_newLine level))
  | level, .obj [] => by
    rw [prettyAt]
    exact .noMembers
  | level, .obj (m :: rest) => by
    rw [prettyAt, String.toList_append, String.toList_append, String.toList_append,
      List.append_assoc "\x7b".toList]
    exact .obj ((spellsMembers_pretty (level + 1) (m :: rest) (List.cons_ne_nil m rest)).before (isBlank_newLine level))

theorem spellsItems_pretty : ∀ (level : ℕ) (items : List Json), items ≠ [] →
    SpellsItems (prettyItems level items).toList items
  | _, [], h => absurd rfl h
  | level, [x], _ => by
    rw [prettyItems, String.toList_append]
    exact .single ((spells_prettyAt level x).behind (isBlank_newLine level))
  | level, x :: y :: rest, _ => by
    rw [prettyItems, String.toList_append, String.toList_append, String.toList_append,
      List.append_assoc ((newLine level).toList ++ _)]
    exact .cons ((spells_prettyAt level x).behind (isBlank_newLine level))
      (spellsItems_pretty level (y :: rest) (List.cons_ne_nil y rest))

theorem spellsMembers_pretty : ∀ (level : ℕ) (members : List (String × Json)), members ≠ [] →
    SpellsMembers (prettyMembers level members).toList members
  | _, [], h => absurd rfl h
  | level, [(k, v)], _ => by
    have htext : (prettyMembers level [(k, v)]).toList =
        (newLine level).toList ++ (quoted k).toList ++ ':' :: ([' '] ++ (prettyAt level v).toList) := by
      simp [prettyMembers]
    rw [htext]
    exact .single ((spells_quoted k).behind (isBlank_newLine level)) ((spells_prettyAt level v).behind isBlank_space)
  | level, (k, v) :: m :: rest, _ => by
    have htext : (prettyMembers level ((k, v) :: m :: rest)).toList =
        (newLine level).toList ++ (quoted k).toList ++ ':' :: ([' '] ++ (prettyAt level v).toList) ++
          ',' :: (prettyMembers level (m :: rest)).toList := by
      simp [prettyMembers]
    rw [htext]
    exact .cons ((spells_quoted k).behind (isBlank_newLine level)) ((spells_prettyAt level v).behind isBlank_space)
      (spellsMembers_pretty level (m :: rest) (List.cons_ne_nil m rest))

end

end Backtest.Json
