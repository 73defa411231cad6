import Engraver.Gcode.Program
import Engraver.Proofs.Gcode.Grammar

/-!
# Sources, line by line

A source is refused for its first bad line, and otherwise its program holds the commands of its lines under
their numbers. So a source below another is read as it is alone, with its numbers moved on.
-/

namespace Engraver

namespace Text

/-! ## The lines of joined texts -/

theorem linesFrom_append (line a b : List Char) :
    linesFrom line (a ++ '\n' :: b) = linesFrom line (a ++ ['\n']) ++ lines b := by
  induction a generalizing line with
  | nil => simp [linesFrom, lines]
  | cons c cs ih =>
    simp only [List.cons_append, linesFrom]
    split
    · rw [ih, List.cons_append]
    · exact ih _

theorem linesFrom_closed (line a : List Char) (h : (line ++ a).getLast? ≠ some '\r') :
    ∃ gap, (gap = [] ∨ gap = [[]]) ∧ linesFrom line (a ++ ['\n']) = linesFrom line a ++ gap := by
  induction a generalizing line with
  | nil =>
    rw [List.append_nil] at h
    have hline : dropReturn line = line := by simp [dropReturn, h]
    cases line with
    | nil => exact ⟨[[]], .inr rfl, rfl⟩
    | cons c cs => exact ⟨[], .inl rfl, by simp [linesFrom, hline]⟩
  | cons c cs ih =>
    simp only [List.cons_append, linesFrom]
    split
    · rename_i hc
      have hrest : ([] ++ cs).getLast? ≠ some '\r' := by
        rcases List.eq_nil_or_concat cs with rfl | ⟨cs, last, rfl⟩
        · simp
        · simpa [List.getLast?_append, List.getLast?_cons] using h
      obtain ⟨gap, hgap, heq⟩ := ih [] hrest
      exact ⟨gap, hgap, by rw [heq, List.cons_append]⟩
    · exact ih (line ++ [c]) (by simpa using h)

theorem length_linesFrom_closed (line a : List Char) :
    (linesFrom line (a ++ ['\n'])).length = 1 + a.count '\n' := by
  induction a generalizing line with
  | nil => simp [linesFrom]
  | cons c cs ih =>
    simp only [List.cons_append, linesFrom]
    split
    · rename_i hc
      rw [List.length_cons, ih, hc, List.count_cons_self]
      omega
    · rename_i hc
      rw [ih, List.count_cons_of_ne hc]

end Text

namespace Line

theorem parse_add (k number : Nat) (raw : String) :
    parse (k + number) raw = (parse number raw).mapError fun e => { e with line := k + e.line } := by
  unfold parse
  cases readWords (Text.words (commandChars raw.toList)) <;> rfl

theorem parse_error {number : Nat} {raw : String} {e : LineError} (h : parse number raw = .error e) :
    e.line = number ∧ e.text = raw := by
  unfold parse at h
  cases hwords : readWords (Text.words (commandChars raw.toList)) with
  | error fault =>
    rw [hwords] at h
    cases h
    exact ⟨rfl, rfl⟩
  | ok command =>
    rw [hwords] at h
    cases h

end Line

namespace Program

/-! ## The first error of a list -/

section Collect

variable {ε α : Type}

theorem collect_eq_ok_iff (items : List (Except ε α)) (values : List α) :
    collect items = .ok values ↔ items = values.map .ok := by
  induction items generalizing values with
  | nil => cases values <;> simp [collect]
  | cons item items ih =>
    cases item with
    | error e => cases values <;> simp [collect]
    | ok a =>
      cases values with
      | nil => cases h : collect items <;> simp [collect, h, Except.map]
      | cons b values =>
        rw [List.map_cons, List.cons.injEq, ← ih]
        cases h : collect items <;> simp [collect, h, Except.map]

theorem collect_eq_error_iff (items : List (Except ε α)) (e : ε) :
    collect items = .error e ↔ ∃ (before : List α) (after : List (Except ε α)),
      items = before.map .ok ++ .error e :: after := by
  induction items with
  | nil => simp [collect]
  | cons item items ih =>
    cases item with
    | error e' =>
      constructor
      · intro h
        cases h
        exact ⟨[], items, rfl⟩
      · rintro ⟨before, after, h⟩
        cases before with
        | nil =>
          cases h
          rfl
        | cons b before => cases h
    | ok a =>
      have hstep : collect (.ok a :: items) = .error e ↔ collect items = .error e := by
        cases h : collect items <;> simp [collect, h, Except.map]
      rw [hstep, ih]
      constructor
      · rintro ⟨before, after, rfl⟩
        exact ⟨a :: before, after, rfl⟩
      · rintro ⟨before, after, h⟩
        cases before with
        | nil => cases h
        | cons b before =>
          cases h
          exact ⟨before, after, rfl⟩

theorem collect_append (items later : List (Except ε α)) :
    collect (items ++ later) =
      match collect items with
      | .error e => .error e
      | .ok values => (collect later).map (values ++ ·) := by
  induction items with
  | nil => cases h : collect later <;> simp [collect, h, Except.map]
  | cons item items ih =>
    cases item with
    | error e => rfl
    | ok a =>
      simp only [List.cons_append, collect, ih]
      cases collect items <;> cases collect later <;> rfl

end Collect

/-! ## The items of lines -/

/-- An item, `k` lines further down. -/
def moved (k : Nat) : Except LineError ProgramLine → Except LineError ProgramLine
  | .error e => .error { e with line := k + e.line }
  | .ok line => .ok { line with line := k + line.line }

/-- What a source is read as, `k` lines further down. -/
def movedAll (k : Nat) : Except LineError (List ProgramLine) → Except LineError (List ProgramLine)
  | .error e => .error { e with line := k + e.line }
  | .ok lines => .ok (lines.map fun line => { line with line := k + line.line })

theorem collect_moved (k : Nat) (items : List (Except LineError ProgramLine)) :
    collect (items.map (moved k)) = movedAll k (collect items) := by
  induction items with
  | nil => rfl
  | cons item items ih =>
    cases item with
    | error e => rfl
    | ok line =>
      simp only [List.map_cons, moved, collect, ih]
      cases collect items <;> rfl

theorem item?_add (k number : Nat) (raw : String) :
    item? (k + number) raw = (item? number raw).map (moved k) := by
  unfold item?
  rw [Line.parse_add]
  rcases Line.parse number raw with e | _ | command <;> rfl

theorem itemsFrom_add (k number : Nat) (lines : List (List Char)) :
    itemsFrom (k + number) lines = (itemsFrom number lines).map (moved k) := by
  induction lines generalizing number with
  | nil => rfl
  | cons line lines ih =>
    rw [itemsFrom, itemsFrom, Nat.add_assoc, ih, item?_add, List.map_append]
    cases item? number (.ofList line) <;> rfl

theorem itemsFrom_append (number : Nat) (lines later : List (List Char)) :
    itemsFrom number (lines ++ later) =
      itemsFrom number lines ++ itemsFrom (number + lines.length) later := by
  induction lines generalizing number with
  | nil => rfl
  | cons line lines ih =>
    rw [List.cons_append, itemsFrom, itemsFrom, ih, List.append_assoc, List.length_cons]
    congr 3
    omega

theorem itemsFrom_empty (number : Nat) : itemsFrom number [[]] = [] := rfl

theorem mem_itemsFrom (number : Nat) (lines : List (List Char)) (item : Except LineError ProgramLine) :
    item ∈ itemsFrom number lines ↔
      ∃ i raw, lines[i]? = some raw ∧ item? (number + i) (.ofList raw) = some item := by
  induction lines generalizing number with
  | nil => simp [itemsFrom]
  | cons line lines ih =>
    rw [itemsFrom, List.mem_append, Option.mem_toList, ih]
    constructor
    · rintro (h | ⟨i, raw, hraw, h⟩)
      · exact ⟨0, line, rfl, h⟩
      · exact ⟨i + 1, raw, hraw, by rwa [Nat.add_assoc, Nat.add_comm 1] at h⟩
    · rintro ⟨i, raw, hraw, h⟩
      cases i with
      | zero =>
        cases hraw
        exact .inl h
      | succ i => exact .inr ⟨i, raw, hraw, by rwa [Nat.add_assoc, Nat.add_comm 1]⟩

theorem item?_eq_ok_iff (number : Nat) (raw : String) (line : ProgramLine) :
    item? number raw = some (.ok line) ↔
      line.line = number ∧ Line.parse number raw = .ok (some line.command) := by
  unfold item?
  rcases Line.parse number raw with e | _ | command
  · simp
  · simp
  · obtain ⟨n, c⟩ := line
    simp [eq_comm]

theorem item?_eq_error_iff (number : Nat) (raw : String) (e : LineError) :
    item? number raw = some (.error e) ↔ Line.parse number raw = .error e := by
  unfold item?
  rcases Line.parse number raw with e | _ | command <;> simp

/-- The error is that of the first line that has one. -/
theorem collect_itemsFrom_error_iff (number : Nat) (lines : List (List Char)) (e : LineError) :
    collect (itemsFrom number lines) = .error e ↔
      ∃ i raw, lines[i]? = some raw ∧ Line.parse (number + i) (.ofList raw) = .error e ∧
        ∀ j < i, ∀ raw, lines[j]? = some raw →
          ∃ command?, Line.parse (number + j) (.ofList raw) = .ok command? := by
  induction lines generalizing number with
  | nil => simp [itemsFrom, collect]
  | cons line lines ih =>
    cases hline : Line.parse number (.ofList line) with
    | error e' =>
      have hfirst : collect (itemsFrom number (line :: lines)) = .error e' := by
        rw [itemsFrom, (item?_eq_error_iff number _ e').mpr hline]
        rfl
      rw [hfirst]
      constructor
      · intro h
        cases h
        exact ⟨0, line, rfl, hline, by simp⟩
      · rintro ⟨i, raw, hraw, herror, hbefore⟩
        cases i with
        | zero =>
          cases hraw
          rw [Nat.add_zero, hline] at herror
          cases herror
          rfl
        | succ i =>
          obtain ⟨command?, hok⟩ := hbefore 0 (Nat.succ_pos i) line rfl
          rw [Nat.add_zero, hline] at hok
          cases hok
    | ok command? =>
      have hrest : collect (itemsFrom number (line :: lines)) = .error e ↔
          collect (itemsFrom (number + 1) lines) = .error e := by
        rw [itemsFrom, collect_append, item?, hline]
        cases command? <;> cases collect (itemsFrom (number + 1) lines) <;> simp [collect, Except.map]
      rw [hrest, ih]
      constructor
      · rintro ⟨i, raw, hraw, herror, hbefore⟩
        refine ⟨i + 1, raw, hraw, by rwa [Nat.add_assoc, Nat.add_comm 1] at herror, ?_⟩
        intro j hj raw hraw
        cases j with
        | zero =>
          cases hraw
          exact ⟨command?, hline⟩
        | succ j =>
          have hok := hbefore j (Nat.lt_of_succ_lt_succ hj) raw hraw
          rwa [Nat.add_assoc, Nat.add_comm 1] at hok
      · rintro ⟨i, raw, hraw, herror, hbefore⟩
        cases i with
        | zero =>
          cases hraw
          rw [Nat.add_zero, hline] at herror
          cases herror
        | succ i =>
          refine ⟨i, raw, hraw, by rwa [Nat.add_assoc, Nat.add_comm 1], ?_⟩
          intro j hj raw hraw
          have hok := hbefore (j + 1) (Nat.succ_lt_succ hj) raw hraw
          rwa [Nat.add_assoc, Nat.add_comm 1]

theorem mem_of_collect {number : Nat} {lines : List (List Char)} {values : List ProgramLine}
    (h : collect (itemsFrom number lines) = .ok values) (line : ProgramLine) :
    line ∈ values ↔ ∃ i raw, lines[i]? = some raw ∧ line.line = number + i ∧
      Line.parse (number + i) (.ofList raw) = .ok (some line.command) := by
  have hmem : line ∈ values ↔ .ok line ∈ itemsFrom number lines := by
    rw [(collect_eq_ok_iff _ values).mp h]
    simp
  rw [hmem, mem_itemsFrom]
  simp only [item?_eq_ok_iff]

theorem collect_itemsFrom_sorted {number : Nat} {lines : List (List Char)} {values : List ProgramLine}
    (h : collect (itemsFrom number lines) = .ok values) :
    (values.map ProgramLine.line).Pairwise (· < ·) := by
  induction lines generalizing number values with
  | nil =>
    cases h
    exact List.Pairwise.nil
  | cons line lines ih =>
    rw [itemsFrom, collect_append] at h
    cases hrest : collect (itemsFrom (number + 1) lines) with
    | error e =>
      rcases hitem : item? number (.ofList line) with _ | e' | first <;> rw [hrest, hitem] at h <;> cases h
    | ok later =>
      have hsorted := ih hrest
      rcases hitem : item? number (.ofList line) with _ | e' | first <;> rw [hrest, hitem] at h <;> cases h
      · exact hsorted
      · -- All that comes later has a number from `number + 1` on.
        have hnumber := ((item?_eq_ok_iff number _ first).mp hitem).1
        refine List.Pairwise.cons ?_ hsorted
        rintro n hn
        obtain ⟨next, hnext, rfl⟩ := List.mem_map.mp hn
        obtain ⟨i, -, -, hlater, -⟩ := (mem_of_collect hrest next).mp hnext
        omega

/-! ## Sources -/

theorem parse_eq_ok_iff (source : String) (p : Program) :
    parse source = .ok p ↔ collect (items source) = .ok p.lines := by
  unfold parse
  cases collect (items source) with
  | error e => simp [Except.map]
  | ok lines =>
    obtain ⟨lines'⟩ := p
    simp [Except.map]

theorem parse_eq_error_iff (source : String) (e : LineError) :
    parse source = .error e ↔ collect (items source) = .error e := by
  unfold parse
  cases collect (items source) <;> simp [Except.map]

def IsFinite (p : Program) : Prop := ∀ line ∈ p.lines, line.command.IsFinite

theorem isFinite_of_parse {source : String} {p : Program} (h : parse source = .ok p) : p.IsFinite := by
  intro line hline
  obtain ⟨i, raw, -, -, hread⟩ := (mem_of_collect ((parse_eq_ok_iff source p).mp h) line).mp hline
  exact Line.isFinite_of_parse hread

theorem items_joined (source rest : String) (h : source.toList.getLast? ≠ some '\r') :
    items (source ++ "\n" ++ rest) =
      items source ++ (items rest).map (moved (1 + source.toList.count '\n')) := by
  obtain ⟨gap, hgap, hclosed⟩ := Text.linesFrom_closed [] source.toList h
  have hlength := Text.length_linesFrom_closed [] source.toList
  have htext : (source ++ "\n" ++ rest).toList = source.toList ++ '\n' :: rest.toList := by simp
  have hempty (number : Nat) : itemsFrom number gap = [] := by
    rcases hgap with rfl | rfl
    · rfl
    · exact itemsFrom_empty number
  unfold items
  rw [htext, Text.lines, Text.linesFrom_append, itemsFrom_append, hlength, Nat.add_comm 1,
    itemsFrom_add, hclosed, itemsFrom_append, hempty, List.append_nil]
  rfl

theorem parse_error_iff_first (source : String) (e : LineError) :
    parse source = .error e ↔ ∃ i raw, (Text.lines source.toList)[i]? = some raw ∧
      Line.parse (i + 1) (.ofList raw) = .error e ∧ ∀ j < i, ∀ raw, (Text.lines source.toList)[j]? = some raw →
        ∃ command?, Line.parse (j + 1) (.ofList raw) = .ok command? := by
  have h := (parse_eq_error_iff source e).trans (collect_itemsFrom_error_iff 1 _ e)
  simpa only [Nat.add_comm 1] using h

theorem exists_parse_iff (source : String) :
    (∃ p, parse source = .ok p) ↔ ∀ i raw, (Text.lines source.toList)[i]? = some raw →
      ∃ command?, Line.parse (i + 1) (.ofList raw) = .ok command? := by
  constructor
  · rintro ⟨p, hp⟩ i raw hraw
    have hitems := (collect_eq_ok_iff _ _).mp ((parse_eq_ok_iff source p).mp hp)
    cases hread : Line.parse (i + 1) (.ofList raw) with
    | ok command? => exact ⟨command?, rfl⟩
    | error e =>
      rw [Nat.add_comm] at hread
      have hmem : .error e ∈ items source :=
        (mem_itemsFrom 1 _ _).mpr ⟨i, raw, hraw, (item?_eq_error_iff _ _ e).mpr hread⟩
      simp [hitems] at hmem
  · intro hall
    cases hp : parse source with
    | ok p => exact ⟨p, rfl⟩
    | error e =>
      obtain ⟨i, raw, hraw, hbad, -⟩ := (parse_error_iff_first source e).mp hp
      obtain ⟨command?, hok⟩ := hall i raw hraw
      rw [hbad] at hok
      cases hok

theorem mem_lines_of_parse {source : String} {p : Program} (h : parse source = .ok p) (line : Nat)
    (command : Command) :
    ⟨line, command⟩ ∈ p.lines ↔ ∃ i raw, (Text.lines source.toList)[i]? = some raw ∧ line = i + 1 ∧
      Line.parse line (.ofList raw) = .ok (some command) := by
  rw [mem_of_collect ((parse_eq_ok_iff source p).mp h)]
  constructor
  · rintro ⟨i, raw, hraw, hline, hread⟩
    have hnumber : line = i + 1 := hline.trans (Nat.add_comm 1 i)
    exact ⟨i, raw, hraw, hnumber, by rwa [← hline] at hread⟩
  · rintro ⟨i, raw, hraw, rfl, hread⟩
    exact ⟨i, raw, hraw, Nat.add_comm i 1, by rwa [Nat.add_comm] at hread⟩

/-- **Sources are read line by line.** A source has a program exactly if every one of its lines can be read.
Then the program has the commands of these lines, under their numbers, which rise; and so has the reader that
goes on after errors. A source without a program has the error of its first bad line, whatever comes after it,
with the number and the text of that line, and it is the reader's first error. Of two sources, one below the
other, the first error counts, and without an error the second program follows the first; its numbers are moved
on by the lines of the first source. -/
theorem source_is_read_line_by_line (source rest : String) :
    let lines := Text.lines source.toList
    ((∃ p, parse source = .ok p) ↔ ∀ i raw, lines[i]? = some raw →
      ∃ command?, Line.parse (i + 1) (.ofList raw) = .ok command?) ∧
    (∀ p, parse source = .ok p →
      (∀ line command, ⟨line, command⟩ ∈ p.lines ↔ ∃ i raw, lines[i]? = some raw ∧ line = i + 1 ∧
        Line.parse line (.ofList raw) = .ok (some command)) ∧
      (p.lines.map ProgramLine.line).Pairwise (· < ·) ∧
      items source = p.lines.map .ok) ∧
    (∀ e, parse source = .error e ↔ ∃ i raw, lines[i]? = some raw ∧
      Line.parse (i + 1) (.ofList raw) = .error e ∧
      ∀ j < i, ∀ raw, lines[j]? = some raw → ∃ command?, Line.parse (j + 1) (.ofList raw) = .ok command?) ∧
    (∀ e, parse source = .error e →
      (∃ i raw, lines[i]? = some raw ∧ e.line = i + 1 ∧ e.text = .ofList raw) ∧
      ∃ (before : List ProgramLine) (after : List (Except LineError ProgramLine)),
        items source = before.map .ok ++ .error e :: after) ∧
    (source.toList.getLast? ≠ some '\r' →
      let k := 1 + source.toList.count '\n'
      parse (source ++ "\n" ++ rest) =
        match parse source, parse rest with
        | .error e, _ => .error e
        | .ok _, .error e => .error { e with line := k + e.line }
        | .ok p, .ok q => .ok ⟨p.lines ++ q.lines.map fun line => { line with line := k + line.line }⟩) := by
  intro lines
  refine ⟨exists_parse_iff source, ?_, parse_error_iff_first source, ?_, ?_⟩
  · intro p hp
    have hcollect := (parse_eq_ok_iff source p).mp hp
    exact ⟨mem_lines_of_parse hp, collect_itemsFrom_sorted hcollect, (collect_eq_ok_iff _ _).mp hcollect⟩
  · intro e he
    obtain ⟨i, raw, hraw, hbad, -⟩ := (parse_error_iff_first source e).mp he
    obtain ⟨hline, htext⟩ := Line.parse_error hbad
    exact ⟨⟨i, raw, hraw, hline, htext⟩, (collect_eq_error_iff _ _).mp ((parse_eq_error_iff source e).mp he)⟩
  · intro h k
    unfold parse
    rw [items_joined source rest h, collect_append, collect_moved]
    cases collect (items source) <;> cases collect (items rest) <;> rfl

/-- A command above an empty line, and both above a source that is refused for its second line. -/
theorem source_is_read_line_by_line_joined :
    "G90\n; move".toList.getLast? ≠ some '\r' ∧
    parse ("G90\n; move" ++ "\n" ++ "G91\nM999") = .error ⟨4, "M999", .unknownCommand "M999"⟩ := by
  have hend : "G90\n; move".toList.getLast? ≠ some '\r' := by decide +kernel
  have hfirst : parse "G90\n; move" = .ok ⟨[⟨1, .setMode .absolute⟩]⟩ := by rfl
  have hrest : parse "G91\nM999" = .error ⟨2, "M999", .unknownCommand "M999"⟩ := by rfl
  have h := (source_is_read_line_by_line "G90\n; move" "G91\nM999").2.2.2.2 hend
  rw [hfirst, hrest] at h
  exact ⟨hend, h⟩

end Program

end Engraver
