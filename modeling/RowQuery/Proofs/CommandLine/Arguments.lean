import Mathlib.Data.List.Nodup
import RowQuery.CommandLine.Arguments
import RowQuery.Proofs.Decimal

/-!
# Options and requests

Options in any order, each in one word and at most once, make the request that has what each of
them tells and, without it, what is usual (`ofWords_words`).
-/

namespace RowQuery.CommandLine

/-- The long name of a setting. -/
def Setting.name : Setting → String
  | .select => "select"
  | .groupBy => "group-by"
  | .limit => "limit"

/-- The long name of a flag. -/
def Flag.name : Flag → String
  | .json => "json"
  | .strict => "strict"
  | .rejectNonNumeric => "reject-non-numeric"

/-- An option: a setting that gets a value, or a flag that is raised. -/
inductive Entry where
  | sets (setting : Setting) (value : String)
  | raises (flag : Flag)

namespace Entry

/-- What an option is about. -/
def kind : Entry → Setting ⊕ Flag
  | .sets setting _ => .inl setting
  | .raises flag => .inr flag

/-- An option in one word. -/
def word : Entry → String
  | .sets setting value => "--" ++ setting.name ++ "=" ++ value
  | .raises flag => "--" ++ flag.name

end Entry

namespace Arguments

/-- Arguments hold what some options tell. -/
structure Holds (entries : List Entry) (arguments : Arguments) : Prop where
  settings : ∀ setting value, arguments.value? setting = some value ↔
    .sets setting value ∈ entries
  flags : ∀ flag, flag ∈ arguments.flags ↔ .raises flag ∈ entries
  file : arguments.file = none

variable {entries : List Entry} {arguments : Arguments} {argument value : String}
  {setting : Setting} {flag : Flag}

theorem holds_empty : Holds [] .empty where
  settings _ _ := by simp [value?, empty]
  flags _ := by simp [empty]
  file := rfl

theorem Holds.addSetting (holds : arguments.Holds entries)
    (new : Sum.inl setting ∉ entries.map Entry.kind) : ∃ after,
      arguments.addSetting argument setting value = .ok after ∧
        after.Holds (entries ++ [.sets setting value]) := by
  have unset : arguments.value? setting = none := by
    rw [Option.eq_none_iff_forall_not_mem]
    exact fun value told => new (List.mem_map_of_mem ((holds.settings setting value).mp told))
  refine ⟨_, if_neg (by rw [unset]; decide), ?_, ?_, holds.file⟩
  · intro setting' value'
    rw [List.mem_append, ← holds.settings, List.mem_singleton, Entry.sets.injEq, value?,
      List.lookup_cons]
    by_cases same : setting' = setting
    · subst same
      simp [unset, eq_comm]
    · rw [beq_eq_false_iff_ne.mpr same, or_iff_left (by simp [same])]
      rfl
  · intro flag
    rw [holds.flags]
    simp

theorem Holds.addFlag (holds : arguments.Holds entries)
    (new : Sum.inr flag ∉ entries.map Entry.kind) : ∃ after,
      arguments.addFlag argument flag = .ok after ∧ after.Holds (entries ++ [.raises flag]) := by
  have lowered : flag ∉ arguments.flags := fun raised =>
    new (List.mem_map_of_mem ((holds.flags flag).mp raised))
  refine ⟨_, if_neg (by simpa using lowered), ?_, ?_, holds.file⟩
  · intro setting value
    rw [List.mem_append, ← holds.settings, List.mem_singleton, or_iff_left nofun]
    rfl
  · intro flag'
    rw [List.mem_cons, holds.flags, List.mem_append, List.mem_singleton, Entry.raises.injEq,
      or_comm]

theorem step_sets (setting : Setting) (value : String) (arguments : Arguments) :
    step (Entry.sets setting value).word arguments =
      (arguments.addSetting (Entry.sets setting value).word setting value).map .complete := by
  have chars : (Entry.sets setting value).word.toList =
      '-' :: '-' :: (setting.name.toList ++ '=' :: value.toList) := by
    simp [Entry.word]
  have name : (setting.name.toList ++ '=' :: value.toList).takeWhile (· != '=') =
      setting.name.toList := by
    cases setting <;> rfl
  have rest : (setting.name.toList ++ '=' :: value.toList).dropWhile (· != '=') =
      '=' :: value.toList := by
    cases setting <;> rfl
  have long : step (Entry.sets setting value).word arguments =
      longOption (Entry.sets setting value).word (setting.name.toList ++ '=' :: value.toList)
        arguments := by
    rw [step, chars]
    rfl
  have no_flag : longFlags.lookup setting.name = none := by
    cases setting <;> decide
  have known : longSettings.lookup setting.name = some setting := by
    cases setting <;> decide
  simp only [long, longOption, name, rest, String.ofList_toList, no_flag, known]

theorem step_raises (flag : Flag) (arguments : Arguments) :
    step (Entry.raises flag).word arguments =
      (arguments.addFlag (Entry.raises flag).word flag).map .complete := by
  cases flag <;> rfl

theorem word_ne_dashes (entry : Entry) : entry.word ≠ "--" := by
  intro same
  have chars := congrArg String.toList same
  cases entry with
  | sets setting value => cases setting <;> simp [Entry.word, Setting.name] at chars
  | raises flag => cases flag <;> simp [Entry.word, Flag.name] at chars

/-- Options are taken one after the other. -/
theorem read_words {entries : List Entry} {earlier : List Entry} {arguments : Arguments}
    (holds : arguments.Holds earlier) (distinct : ((earlier ++ entries).map Entry.kind).Nodup)
    (rest : List String) : ∃ after, after.Holds (earlier ++ entries) ∧
      read (entries.map Entry.word ++ rest) arguments = read rest after := by
  induction entries generalizing earlier arguments with
  | nil => exact ⟨arguments, by rwa [List.append_nil], rfl⟩
  | cons entry entries ih =>
      have new : entry.kind ∉ earlier.map Entry.kind := by
        rw [List.map_append, List.map_cons] at distinct
        exact fun known => (List.nodup_append.mp distinct).2.2 _ known _ List.mem_cons_self rfl
      obtain ⟨next, taken, holds⟩ : ∃ next,
          step entry.word arguments = .ok (.complete next) ∧ next.Holds (earlier ++ [entry]) := by
        cases entry with
        | sets setting value =>
            obtain ⟨next, added, holds⟩ := holds.addSetting new
            exact ⟨next, by rw [step_sets, added]; rfl, holds⟩
        | raises flag =>
            obtain ⟨next, added, holds⟩ := holds.addFlag new
            exact ⟨next, by rw [step_raises, added]; rfl, holds⟩
      rw [List.append_cons] at distinct
      obtain ⟨after, held, ran⟩ := ih holds distinct
      refine ⟨after, by rwa [List.append_cons], ?_⟩
      rw [List.map_cons, List.cons_append, read]
      · rw [taken]
        exact ran
      · exact word_ne_dashes entry

theorem Holds.flag_iff (holds : arguments.Holds entries) (flag : Flag) :
    arguments.flags.contains flag = true ↔ .raises flag ∈ entries := by
  rw [List.contains_iff_mem, holds.flags]

theorem limit_of_numeral {number : Nat} (given : arguments.value? .limit = some (toString number))
    (bound : number < UInt64.size) : arguments.limit = .ok number := by
  have digits : (toString number).toList = Decimal.digitChars number := Nat.toList_repr
  have unsigned : (Decimal.digitChars number).head? ≠ some '+' := by
    intro plus
    cases Numeral.isDigit_of_mem_digitChars (List.mem_of_mem_head? plus)
  have written : ((Decimal.digitChars number).isEmpty ||
      !(Decimal.digitChars number).all Char.isDigit) = false := by
    have all : (Decimal.digitChars number).all Char.isDigit = true :=
      List.all_eq_true.mpr fun c member => Numeral.isDigit_of_mem_digitChars member
    rw [all, List.isEmpty_eq_false_iff.mpr (Numeral.digitChars_ne_nil number)]
    rfl
  rw [limit, given]
  simp only [digits]
  rw [if_neg unsigned, written, Numeral.digitsValue_digitChars]
  exact if_pos bound

/-- The limit is the one that is told, and 40 if there is none. -/
theorem Holds.limit (holds : arguments.Holds entries)
    (limits : ∀ value, .sets .limit value ∈ entries →
      ∃ number < UInt64.size, value = toString number) :
    ∃ limit, arguments.limit = .ok limit ∧
      (∀ number : Nat, .sets .limit (toString number) ∈ entries → limit = number) ∧
      ((∀ value, .sets .limit value ∉ entries) → limit = 40) := by
  cases asked : arguments.value? .limit with
  | none =>
      refine ⟨40, by rw [Arguments.limit, asked], fun number told => ?_, fun _ => rfl⟩
      cases asked.symm.trans ((holds.settings _ _).mpr told)
  | some value =>
      have given := (holds.settings _ _).mp asked
      obtain ⟨number, bound, rfl⟩ := limits value given
      refine ⟨number, limit_of_numeral asked bound, fun other told => ?_,
        fun never => (never _ given).elim⟩
      have same := Option.some.inj (asked.symm.trans ((holds.settings _ _).mpr told))
      have digits : Decimal.digitChars number = Decimal.digitChars other :=
        Nat.toList_repr.symm.trans ((congrArg String.toList same).trans Nat.toList_repr)
      rw [← Numeral.digitsValue_digitChars number, digits, Numeral.digitsValue_digitChars]

theorem read_file (arguments : Arguments) (file : Option String) (none : arguments.file = none) :
    read (file.elim [] fun file => ["--", file]) arguments = .ok { arguments with file } := by
  cases arguments
  cases none
  cases file with
  | none => rw [Option.elim_none, read]
  | some file =>
      rw [Option.elim_some, read]
      rfl

end Arguments

open Arguments (Holds holds_empty)

/-- What options in any order tell is what is asked for. -/
theorem Request.ofWords_words {entries : List Entry} {select : String}
    (distinct : (entries.map Entry.kind).Nodup) (selects : .sets .select select ∈ entries)
    (limits : ∀ value, .sets .limit value ∈ entries →
      ∃ number < UInt64.size, value = toString number) (file : Option String) :
    ∃ request, ofWords (entries.map Entry.word ++ file.elim [] fun file => ["--", file]) =
        .ok request ∧
      request.select = select ∧
      (∀ columns, request.groupBy = some columns ↔ .sets .groupBy columns ∈ entries) ∧
      request.file = file ∧
      (∀ number : Nat, .sets .limit (toString number) ∈ entries → request.limit = number) ∧
      ((∀ value, .sets .limit value ∉ entries) → request.limit = 40) ∧
      (request.json = true ↔ .raises .json ∈ entries) ∧
      (request.strict = true ↔ .raises .strict ∈ entries) ∧
      (request.rejectNonNumeric = true ↔ .raises .rejectNonNumeric ∈ entries) := by
  obtain ⟨told, holds, ran⟩ := Arguments.read_words holds_empty distinct
    (file.elim [] fun file => ["--", file])
  rw [List.nil_append] at holds
  obtain ⟨limit, limited, given, usual⟩ := holds.limit limits
  have selected : told.value? .select = some select := (holds.settings _ _).mpr selects
  have made : ofWords (entries.map Entry.word ++ file.elim [] fun file => ["--", file]) =
      .ok { select, groupBy := told.value? .groupBy, file, limit
            json := told.flags.contains .json
            strict := told.flags.contains .strict
            rejectNonNumeric := told.flags.contains .rejectNonNumeric } := by
    have limited : { told with file : Arguments }.limit = .ok limit := limited
    have selected : { told with file : Arguments }.value? .select = some select := selected
    rw [ofWords, ran, Arguments.read_file told file holds.file]
    simp only [Except.bind, Arguments.request, limited, selected, bind]
    rfl
  exact ⟨_, made, rfl, holds.settings .groupBy, rfl, given, usual, holds.flag_iff .json,
    holds.flag_iff .strict, holds.flag_iff .rejectNonNumeric⟩

end RowQuery.CommandLine
