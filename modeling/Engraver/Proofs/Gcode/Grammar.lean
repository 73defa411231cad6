import Mathlib.Data.List.Forall2
import Mathlib.Data.List.Nodup
import Engraver.Gcode.Line

/-!
# What a line may say

The grammar of a line on its own, apart from how it is read: a name and letters with finite numbers. Reading
accepts exactly that, and otherwise blames the leftmost word that does not fit.
-/

namespace Engraver

namespace Command

def numbers : Command → List Float
  | move _ x y feedrate => x.toList ++ y.toList ++ feedrate.toList
  | setPosition x y => [x, y]
  | laserOn power => power.toList
  | setStepCal value => value.toList
  | _ => []

def IsFinite (c : Command) : Prop := ∀ value ∈ c.numbers, value.isFinite = true

end Command

namespace Line

/-! ## The grammar -/

/-- A word is a letter followed by the text of a finite number. -/
def Gives (word : List Char) (param : Char × Float) : Prop :=
  ∃ digits, word = param.1 :: digits ∧ Double.read? digits = some param.2 ∧ param.2.isFinite = true

/-- Words that give the entry's letters finite numbers, none of them twice. -/
structure Spells (entry : Entry) (words : List (List Char)) (params : Parameters) : Prop where
  gives : List.Forall₂ Gives words params
  known : ∀ param ∈ params, param.1 ∈ entry.letters
  once : (params.map Prod.fst).Nodup

/-- What is wrong with a word after the parameters seen. Each fault rules out those before it. -/
inductive Offends (entry : Entry) (seen : Parameters) : List Char → LineFault → Prop
  | malformed (word : List Char) : (∀ c ∈ word.head?, c.isAlpha = false) →
      Offends entry seen word (.malformedParameter (.ofList word))
  | unsupported (letter : Char) (text : List Char) : letter.isAlpha = true → letter ∉ entry.letters →
      Offends entry seen (letter :: text) (.unsupportedParameter entry.name letter)
  | invalid (letter : Char) (text : List Char) : letter ∈ entry.letters →
      (∀ value, Double.read? text = some value → value.isFinite = false) →
      Offends entry seen (letter :: text) (.invalidValue letter (.ofList text))
  | duplicate (letter : Char) (text : List Char) (value : Float) : letter ∈ entry.letters →
      Double.read? text = some value → value.isFinite = true → letter ∈ seen.map Prod.fst →
      Offends entry seen (letter :: text) (.duplicateParameter letter)

/-- What is wrong with the leftmost word that does not fit. -/
inductive Blames : List (List Char) → LineFault → Prop
  | unimplemented (name : String) (words : List (List Char)) :
      name ∉ Vocabulary.entries.map Entry.name → name ∈ Vocabulary.unimplemented →
      Blames (name.toList :: words) (.unimplemented name)
  | unknown (name : String) (words : List (List Char)) :
      name ∉ Vocabulary.entries.map Entry.name → name ∉ Vocabulary.unimplemented →
      Blames (name.toList :: words) (.unknownCommand name)
  | parameter (entry : Entry) (before : List (List Char)) (seen : Parameters) (word : List Char)
      (after : List (List Char)) (fault : LineFault) :
      entry ∈ Vocabulary.entries → Spells entry before seen → Offends entry seen word fault →
      Blames (entry.name.toList :: (before ++ word :: after)) fault

/-! ## One parameter -/

theorem has_iff (params : Parameters) (letter : Char) :
    params.has letter = true ↔ letter ∈ params.map Prod.fst := by
  simp only [Parameters.has, Parameters.get?, List.lookup_isSome_iff, beq_iff_eq, List.mem_map]
  exact ⟨fun ⟨p, hp, h⟩ => ⟨p, hp, h.symm⟩, fun ⟨p, hp, h⟩ => ⟨p, hp, h.symm⟩⟩

theorem finiteValue?_eq_some_iff (text : List Char) (value : Float) :
    finiteValue? text = some value ↔ Double.read? text = some value ∧ value.isFinite = true :=
  Option.filter_eq_some_iff

theorem finiteValue?_eq_none_iff (text : List Char) :
    finiteValue? text = none ↔ ∀ value, Double.read? text = some value → value.isFinite = false := by
  unfold finiteValue?
  cases Double.read? text <;> simp

theorem isAlpha_of_known {entry : Entry} (he : entry ∈ Vocabulary.entries) {letter : Char}
    (h : letter ∈ entry.letters) : letter.isAlpha = true := by
  have hall : ∀ entry ∈ Vocabulary.entries, ∀ c ∈ entry.letters, c.isAlpha = true := by
    simp [Vocabulary.entries]
  exact hall entry he letter h

theorem readParameter_spec (entry : Entry) (seen : Parameters) (word : List Char) :
    match readParameter entry seen word with
    | .ok param => Gives word param ∧ param.1 ∈ entry.letters ∧ param.1 ∉ seen.map Prod.fst
    | .error fault => Offends entry seen word fault := by
  cases word with
  | nil => exact .malformed [] (by simp)
  | cons letter text =>
    rw [readParameter]
    cases halpha : letter.isAlpha with
    | false => exact .malformed _ (by simpa using halpha)
    | true =>
      by_cases hknown : letter ∈ entry.letters
      · have hcontains : entry.letters.contains letter = true := by simpa using hknown
        simp only [hcontains, Bool.not_true, Bool.false_eq_true, if_false]
        cases hvalue : finiteValue? text with
        | none => exact .invalid letter text hknown ((finiteValue?_eq_none_iff text).mp hvalue)
        | some value =>
          obtain ⟨hread, hfinite⟩ := (finiteValue?_eq_some_iff text value).mp hvalue
          by_cases hseen : seen.has letter = true
          · simp only [hseen, if_true]
            exact .duplicate letter text value hknown hread hfinite ((has_iff seen letter).mp hseen)
          · simp only [hseen]
            exact ⟨⟨text, rfl, hread, hfinite⟩, hknown, fun h => hseen ((has_iff seen letter).mpr h)⟩
      · have hcontains : entry.letters.contains letter = false := by simpa using hknown
        simp only [hcontains, Bool.not_true, Bool.not_false, Bool.false_eq_true, if_false, if_true]
        exact .unsupported letter text halpha hknown

theorem readParameter_of_gives {entry : Entry} (he : entry ∈ Vocabulary.entries) {seen : Parameters}
    {word : List Char} {param : Char × Float} (hgives : Gives word param)
    (hknown : param.1 ∈ entry.letters) (hnew : param.1 ∉ seen.map Prod.fst) :
    readParameter entry seen word = .ok param := by
  obtain ⟨text, rfl, hread, hfinite⟩ := hgives
  have hvalue := (finiteValue?_eq_some_iff text param.2).mpr ⟨hread, hfinite⟩
  have hhas : seen.has param.1 = false := by
    rw [← Bool.not_eq_true, has_iff]
    exact hnew
  simp [readParameter, isAlpha_of_known he hknown, hknown, hvalue, hhas]

theorem readParameter_of_offends {entry : Entry} (he : entry ∈ Vocabulary.entries) {seen : Parameters}
    {word : List Char} {fault : LineFault} (h : Offends entry seen word fault) :
    readParameter entry seen word = .error fault := by
  cases h with
  | malformed _ halpha =>
    cases word with
    | nil => rfl
    | cons c text => simp [readParameter, halpha c rfl]
  | unsupported letter text halpha hknown => simp [readParameter, halpha, hknown]
  | invalid letter text hknown hvalue =>
    simp [readParameter, isAlpha_of_known he hknown, hknown, (finiteValue?_eq_none_iff text).mpr hvalue]
  | duplicate letter text value hknown hread hfinite hseen =>
    have hvalue := (finiteValue?_eq_some_iff text value).mpr ⟨hread, hfinite⟩
    simp [readParameter, isAlpha_of_known he hknown, hknown, hvalue, (has_iff seen letter).mpr hseen]

/-! ## All parameters -/

theorem spells_cons_iff {entry : Entry} {word : List Char} {words : List (List Char)}
    {param : Char × Float} {params : Parameters} :
    Spells entry (word :: words) (param :: params) ↔
      Gives word param ∧ param.1 ∈ entry.letters ∧ param.1 ∉ params.map Prod.fst ∧
        Spells entry words params := by
  constructor
  · rintro ⟨hgives, hknown, honce⟩
    rw [List.forall₂_cons] at hgives
    rw [List.map_cons, List.nodup_cons] at honce
    exact ⟨hgives.1, hknown param List.mem_cons_self, honce.1, hgives.2,
      fun p hp => hknown p (List.mem_cons_of_mem _ hp), honce.2⟩
  · rintro ⟨hgives, hknown, hnew, hrest⟩
    refine ⟨.cons hgives hrest.gives, ?_, List.nodup_cons.mpr ⟨hnew, hrest.once⟩⟩
    intro p hp
    rcases List.mem_cons.mp hp with rfl | hp
    · exact hknown
    · exact hrest.known p hp

/-- The letters given are none of those seen. -/
def New (seen params : Parameters) : Prop :=
  ∀ param ∈ params, param.1 ∉ seen.map Prod.fst

theorem new_cons_iff {seen params : Parameters} {param : Char × Float} :
    New seen (param :: params) ∧ param.1 ∉ params.map Prod.fst ↔
      param.1 ∉ seen.map Prod.fst ∧ New (seen ++ [param]) params := by
  simp only [New, List.forall_mem_cons, List.map_append, List.map_cons, List.map_nil, List.mem_append,
    List.mem_singleton, not_or, List.mem_map, not_exists, not_and]
  constructor
  · rintro ⟨⟨hseen, hnew⟩, hother⟩
    exact ⟨hseen, fun p hp => ⟨hnew p hp, hother p hp⟩⟩
  · rintro ⟨hseen, hnew⟩
    exact ⟨⟨hseen, fun p hp => (hnew p hp).1⟩, fun p hp => (hnew p hp).2⟩

/-- Words are read as parameters, or the leftmost that does not fit is blamed. -/
theorem readParameters_spec (entry : Entry) (seen : Parameters) (words : List (List Char)) :
    match readParameters entry seen words with
    | .ok all => ∃ params, all = seen ++ params ∧ Spells entry words params ∧ New seen params
    | .error fault => ∃ before params word after, words = before ++ word :: after ∧
        Spells entry before params ∧ New seen params ∧ Offends entry (seen ++ params) word fault := by
  induction words generalizing seen with
  | nil => exact ⟨[], by simp, ⟨.nil, by simp, by simp⟩, by simp [New]⟩
  | cons word words ih =>
    have hword := readParameter_spec entry seen word
    rw [readParameters]
    cases hread : readParameter entry seen word with
    | error fault =>
      rw [hread] at hword
      exact ⟨[], [], word, words, rfl, ⟨.nil, by simp, by simp⟩, by simp [New], by simpa using hword⟩
    | ok param =>
      rw [hread] at hword
      obtain ⟨hgives, hknown, hseen⟩ := hword
      have hrest := ih (seen ++ [param])
      dsimp only
      cases hwords : readParameters entry (seen ++ [param]) words <;> rw [hwords] at hrest
      case ok all =>
        obtain ⟨params, rfl, hspells, hnew⟩ := hrest
        obtain ⟨hnew, hother⟩ := new_cons_iff.mpr ⟨hseen, hnew⟩
        exact ⟨param :: params, by simp, spells_cons_iff.mpr ⟨hgives, hknown, hother, hspells⟩, hnew⟩
      case error fault =>
        obtain ⟨before, params, word', after, rfl, hspells, hnew, hoffends⟩ := hrest
        obtain ⟨hnew, hother⟩ := new_cons_iff.mpr ⟨hseen, hnew⟩
        exact ⟨word :: before, param :: params, word', after, rfl,
          spells_cons_iff.mpr ⟨hgives, hknown, hother, hspells⟩, hnew, by simpa using hoffends⟩

theorem readParameters_append {entry : Entry} (he : entry ∈ Vocabulary.entries) (seen : Parameters)
    {before : List (List Char)} {params : Parameters} (hspells : Spells entry before params)
    (hnew : New seen params) (after : List (List Char)) :
    readParameters entry seen (before ++ after) = readParameters entry (seen ++ params) after := by
  induction before generalizing seen params with
  | nil =>
    cases hspells.gives
    simp
  | cons word before ih =>
    cases params with
    | nil => cases hspells.gives
    | cons param params =>
      obtain ⟨hgives, hknown, hother, hrest⟩ := spells_cons_iff.mp hspells
      obtain ⟨hseen, hnew⟩ := new_cons_iff.mp ⟨hnew, hother⟩
      rw [List.cons_append, readParameters, readParameter_of_gives he hgives hknown hseen]
      dsimp only
      rw [ih (seen ++ [param]) hrest hnew, List.append_assoc]
      rfl

theorem new_nil (params : Parameters) : New [] params := by
  simp [New]

theorem readParameters_eq_ok_iff {entry : Entry} (he : entry ∈ Vocabulary.entries)
    (words : List (List Char)) (params : Parameters) :
    readParameters entry [] words = .ok params ↔ Spells entry words params := by
  constructor
  · intro h
    have hspec := readParameters_spec entry [] words
    rw [h] at hspec
    obtain ⟨params', rfl, hspells, -⟩ := hspec
    exact hspells
  · intro h
    simpa [readParameters] using readParameters_append he [] h (new_nil params) []

theorem readParameters_eq_error_iff {entry : Entry} (he : entry ∈ Vocabulary.entries)
    (words : List (List Char)) (fault : LineFault) :
    readParameters entry [] words = .error fault ↔
      ∃ before seen word after, words = before ++ word :: after ∧ Spells entry before seen ∧
        Offends entry seen word fault := by
  constructor
  · intro h
    have hspec := readParameters_spec entry [] words
    rw [h] at hspec
    obtain ⟨before, seen, word, after, hwords, hspells, -, hoffends⟩ := hspec
    exact ⟨before, seen, word, after, hwords, hspells, hoffends⟩
  · rintro ⟨before, seen, word, after, rfl, hspells, hoffends⟩
    rw [readParameters_append he [] hspells (new_nil seen), List.nil_append, readParameters,
      readParameter_of_offends he hoffends]

/-! ## The whole line -/

theorem lookup_eq_some_iff (name : String) (entry : Entry) :
    Vocabulary.lookup name = some entry ↔ entry ∈ Vocabulary.entries ∧ entry.name = name := by
  have hnodup : (Vocabulary.entries.map Entry.name).Nodup := by decide
  have hfound {entry : Entry} (h : Vocabulary.lookup name = some entry) :
      entry ∈ Vocabulary.entries ∧ entry.name = name :=
    ⟨List.mem_of_find?_eq_some h, by simpa using List.find?_some h⟩
  refine ⟨hfound, ?_⟩
  rintro ⟨he, hname⟩
  obtain ⟨found, hlookup⟩ : ∃ found, Vocabulary.lookup name = some found := by
    rw [← Option.isSome_iff_exists]
    exact List.find?_isSome.mpr ⟨entry, he, by simpa using hname⟩
  obtain ⟨hmem, hsame⟩ := hfound hlookup
  -- Two entries of one name are the same entry.
  rw [hlookup, List.inj_on_of_nodup_map hnodup hmem he (hsame.trans hname.symm)]

theorem lookup_eq_none_iff (name : String) :
    Vocabulary.lookup name = none ↔ name ∉ Vocabulary.entries.map Entry.name := by
  rw [Option.eq_none_iff_forall_ne_some]
  simp only [ne_eq, lookup_eq_some_iff, List.mem_map, not_exists]

theorem readWords_eq_none_iff (words : List (List Char)) : readWords words = .ok none ↔ words = [] := by
  cases words with
  | nil => simp [readWords]
  | cons name words =>
    rw [readWords]
    split
    · split <;> simp
    · rename_i entry _
      cases readParameters entry [] words <;> simp [Except.map]

theorem readWords_eq_some_iff (words : List (List Char)) (c : Command) :
    readWords words = .ok (some c) ↔
      ∃ entry ∈ Vocabulary.entries, ∃ rest params, words = entry.name.toList :: rest ∧
        Spells entry rest params ∧ c = entry.build params := by
  cases words with
  | nil => simp [readWords]
  | cons name words =>
    rw [readWords]
    constructor
    · intro h
      split at h
      · split at h <;> cases h
      · rename_i entry hlookup
        obtain ⟨he, hname⟩ := (lookup_eq_some_iff _ entry).mp hlookup
        cases hread : readParameters entry [] words with
        | error fault => simp [hread, Except.map] at h
        | ok params =>
          rw [hread] at h
          cases h
          exact ⟨entry, he, words, params, by simp [hname],
            (readParameters_eq_ok_iff he words params).mp hread, rfl⟩
    · rintro ⟨entry, he, rest, params, hwords, hspells, rfl⟩
      cases hwords
      rw [String.ofList_toList, (lookup_eq_some_iff _ entry).mpr ⟨he, rfl⟩]
      dsimp only
      rw [(readParameters_eq_ok_iff he _ params).mpr hspells]
      rfl

theorem readWords_eq_error_iff (words : List (List Char)) (fault : LineFault) :
    readWords words = .error fault ↔ Blames words fault := by
  constructor
  · intro h
    cases words with
    | nil => cases h
    | cons name words =>
      rw [readWords] at h
      split at h
      · rename_i hlookup
        have hunknown := (lookup_eq_none_iff _).mp hlookup
        rw [← String.toList_ofList (l := name)]
        split at h
        · rename_i hname
          cases h
          exact .unimplemented _ words hunknown (by simpa using hname)
        · rename_i hname
          cases h
          exact .unknown _ words hunknown (by simpa using hname)
      · rename_i entry hlookup
        obtain ⟨he, hname⟩ := (lookup_eq_some_iff _ entry).mp hlookup
        cases hread : readParameters entry [] words with
        | ok params => simp [hread, Except.map] at h
        | error fault' =>
          rw [hread] at h
          cases h
          obtain ⟨before, seen, word, after, rfl, hspells, hoffends⟩ :=
            (readParameters_eq_error_iff he words fault).mp hread
          rw [← String.toList_ofList (l := name), ← hname]
          exact .parameter entry before seen word after fault he hspells hoffends
  · intro h
    cases h with
    | unimplemented name words hunknown hname =>
      simp [readWords, (lookup_eq_none_iff name).mpr hunknown, hname]
    | unknown name words hunknown hname =>
      simp [readWords, (lookup_eq_none_iff name).mpr hunknown, hname]
    | parameter entry before seen word after _ he hspells hoffends =>
      rw [readWords, String.ofList_toList, (lookup_eq_some_iff _ entry).mpr ⟨he, rfl⟩]
      dsimp only
      rw [(readParameters_eq_error_iff he _ fault).mpr ⟨before, seen, word, after, rfl, hspells, hoffends⟩]
      rfl

/-! ## Finite numbers -/

theorem isFinite_of_gives {words : List (List Char)} {params : Parameters}
    (h : List.Forall₂ Gives words params) : ∀ param ∈ params, param.2.isFinite = true := by
  induction h with
  | nil => simp
  | cons hword _ ih =>
    obtain ⟨_, _, _, hfinite⟩ := hword
    exact List.forall_mem_cons.mpr ⟨hfinite, ih⟩

theorem Spells.get?_isFinite {entry : Entry} {words : List (List Char)} {params : Parameters}
    (h : Spells entry words params) (letter : Char) :
    ∀ value ∈ params.get? letter, value.isFinite = true := by
  intro value hget
  obtain ⟨front, back, hsplit, -⟩ := List.lookup_eq_some_iff.mp hget
  refine isFinite_of_gives h.gives (letter, value) ?_
  rw [hsplit]
  exact List.mem_append_right front List.mem_cons_self

theorem zero_isFinite : (0 : Float).isFinite = true := by
  decide +kernel

theorem isFinite_getD_zero {value? : Option Float} (h : ∀ value ∈ value?, value.isFinite = true) :
    (value?.getD 0).isFinite = true := by
  cases value? with
  | none => exact zero_isFinite
  | some value => exact h value rfl

theorem Spells.build_isFinite {entry : Entry} (he : entry ∈ Vocabulary.entries)
    {words : List (List Char)} {params : Parameters} (h : Spells entry words params) :
    (entry.build params).IsFinite := by
  have hget := h.get?_isFinite
  have hmove (kind : MoveKind) : (Vocabulary.straightMove kind params).IsFinite := by
    intro value hvalue
    simp only [Vocabulary.straightMove, Command.numbers, List.mem_append, Option.mem_toList] at hvalue
    rcases hvalue with (hx | hy) | hf
    · exact hget 'X' value hx
    · exact hget 'Y' value hy
    · exact hget 'F' value hf
  have hposition : (Command.setPosition ((params.get? 'X').getD 0) ((params.get? 'Y').getD 0)).IsFinite := by
    intro value hvalue
    rcases List.mem_pair.mp hvalue with rfl | rfl
    · exact isFinite_getD_zero (hget 'X')
    · exact isFinite_getD_zero (hget 'Y')
  have hpower : (Command.laserOn (params.get? 'S')).IsFinite :=
    fun value hvalue => hget 'S' value (Option.mem_toList.mp hvalue)
  have hcal : (Command.setStepCal ((params.get? 'X').or (params.get? 'Y'))).IsFinite := by
    intro value hvalue
    rcases Option.or_eq_some_iff.mp (Option.mem_toList.mp hvalue) with hx | ⟨-, hy⟩
    · exact hget 'X' value hx
    · exact hget 'Y' value hy
  have hplain {c : Command} (hc : c.numbers = []) : c.IsFinite := by
    simp [Command.IsFinite, hc]
  clear h hget
  revert entry
  simp only [Vocabulary.entries, List.forall_mem_cons]
  exact ⟨hmove _, hmove _, hplain rfl, hplain rfl, hplain rfl, hposition, hplain rfl, hplain rfl, hpower,
    hplain rfl, hplain rfl, hplain rfl, hcal, hplain rfl, hplain rfl, hplain rfl, by simp⟩

/-! ## Reading a line -/

theorem parse_eq_ok_iff (number : Nat) (raw : String) (c? : Option Command) :
    parse number raw = .ok c? ↔ readWords (Text.words (normalize raw).toList) = .ok c? := by
  rw [parse, normalize, String.toList_ofList]
  cases readWords (Text.words (commandChars raw.toList)) <;> simp [Except.mapError]

theorem parse_eq_error_iff (number : Nat) (raw : String) (e : LineError) :
    parse number raw = .error e ↔
      e.line = number ∧ e.text = raw ∧ readWords (Text.words (normalize raw).toList) = .error e.fault := by
  rw [parse, normalize, String.toList_ofList]
  obtain ⟨line, text, fault⟩ := e
  cases readWords (Text.words (commandChars raw.toList)) <;> simp [Except.mapError, eq_comm]

theorem isFinite_of_parse {number : Nat} {raw : String} {c : Command}
    (h : parse number raw = .ok (some c)) : c.IsFinite := by
  obtain ⟨entry, he, rest, params, -, hspells, rfl⟩ :=
    (readWords_eq_some_iff _ c).mp ((parse_eq_ok_iff number raw _).mp h)
  exact hspells.build_isFinite he

/-- A line reads as nothing if it has no words, as a command if its words spell that command, and in all
other cases as an error that names the line, keeps its text and blames the leftmost word that does not
fit. -/
theorem parse_accepts_exactly_grammar (number : Nat) (raw : String) :
    (parse number raw = .ok none ↔ Text.words (normalize raw).toList = []) ∧
    (∀ c, parse number raw = .ok (some c) ↔
      ∃ entry ∈ Vocabulary.entries, ∃ rest params,
        Text.words (normalize raw).toList = entry.name.toList :: rest ∧ Spells entry rest params ∧
        c = entry.build params) ∧
    (∀ c, parse number raw = .ok (some c) → c.IsFinite) ∧
    (∀ e, parse number raw = .error e ↔
      e.line = number ∧ e.text = raw ∧ Blames (Text.words (normalize raw).toList) e.fault) := by
  refine ⟨?_, ?_, ?_, ?_⟩
  · rw [parse_eq_ok_iff, readWords_eq_none_iff]
  · intro c
    rw [parse_eq_ok_iff, readWords_eq_some_iff]
  · exact fun c h => isFinite_of_parse h
  · intro e
    rw [parse_eq_error_iff, readWords_eq_error_iff]

/-- Of a letter that the command does not take and a letter given twice, the first is blamed. -/
theorem parse_blames_leftmost_word :
    parse 7 "N3 g1 x10.3 q2 x1 *34 ; cut" =
      .error ⟨7, "N3 g1 x10.3 q2 x1 *34 ; cut", .unsupportedParameter "G1" 'Q'⟩ := by
  have hwords : Text.words (normalize "N3 g1 x10.3 q2 x1 *34 ; cut").toList =
      "G1".toList :: (["X10.3".toList] ++ ['Q', '2'] :: ["X1".toList]) := by decide +kernel
  have hvalue : (Double.read? "10.3".toList).any Float.isFinite = true := by decide +kernel
  obtain ⟨value, hread, hfinite⟩ := Option.any_eq_true _ _ |>.mp hvalue
  refine ((parse_accepts_exactly_grammar 7 _).2.2.2 _).mpr ⟨rfl, rfl, ?_⟩
  rw [hwords]
  refine .parameter ⟨"G1", ['X', 'Y', 'F'], Vocabulary.straightMove .controlled⟩ _ [('X', value)] _ _ _
    (by simp [Vocabulary.entries]) ⟨?_, by simp, by simp⟩ (.unsupported 'Q' _ (by decide) (by decide))
  exact .cons ⟨"10.3".toList, rfl, hread, hfinite⟩ .nil

end Line

end Engraver
