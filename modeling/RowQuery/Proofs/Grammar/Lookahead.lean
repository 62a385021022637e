import RowQuery.Proofs.Grammar

/-!
What a reading looks for at the start of a text is what the grammar has there.
-/

namespace RowQuery.Grammar

open Text (isBlank)
open Lookahead

/-! ## Texts cut at a character -/

theorem eq_takeWhile_append (test : Char → Bool) {text first rest : List Char}
    (whole : text = first ++ rest) (within : ∀ c ∈ first, test c)
    (ends : ∀ c ∈ rest.head?, ¬ test c) :
    first = text.takeWhile test ∧ rest = text.dropWhile test := by
  subst whole
  rw [List.takeWhile_append_of_pos within, List.dropWhile_append_of_pos within]
  cases rest with
  | nil => simp
  | cons c rest => simp_all

theorem head?_dropWhile (test : Char → Bool) (text : List Char) :
    ∀ c ∈ (text.dropWhile test).head?, ¬ test c := by
  intro c first
  have stops := List.head?_dropWhile_not test text
  rw [Option.mem_def] at first
  rw [first] at stops
  simpa using stops

theorem mem_takeWhile (test : Char → Bool) (text : List Char) :
    ∀ c ∈ text.takeWhile test, test c :=
  List.all_eq_true.mp List.all_takeWhile

theorem blanks_iff {text rest : List Char} : Blanks text rest ↔ rest = text.dropWhile isBlank := by
  constructor
  · rintro ⟨blanks, whole, within, ends⟩
    exact (eq_takeWhile_append isBlank whole within ends).2
  rintro rfl
  exact ⟨_, List.takeWhile_append_dropWhile.symm, mem_takeWhile isBlank text,
    head?_dropWhile isBlank text⟩

theorem Blanks.unique {text rest other : List Char} (one : Blanks text rest)
    (two : Blanks text other) : rest = other :=
  (blanks_iff.mp one).trans (blanks_iff.mp two).symm

theorem Blanks.self {text rest : List Char} (blanks : Blanks text rest) : Blanks rest rest := by
  obtain ⟨-, -, -, ends⟩ := blanks
  exact ⟨[], rfl, by simp, ends⟩

theorem blanks_of_visible {c : Char} (text : List Char) (visible : isBlank c = false) :
    Blanks (c :: text) (c :: text) := by
  refine ⟨[], rfl, by simp, ?_⟩
  rintro _ ⟨⟩
  simp [visible]

theorem Blanks.dropWhile_eq {text rest : List Char} (blanks : Blanks text rest) :
    rest.dropWhile isBlank = rest :=
  (blanks_iff.mp blanks.self).symm

theorem Blanks.length_le {text rest : List Char} (blanks : Blanks text rest) :
    rest.length ≤ text.length := by
  obtain ⟨first, rfl, -, -⟩ := blanks
  simp

theorem drop_length_takeWhile {test : Char → Bool} (text : List Char) :
    text.drop (text.takeWhile test).length = text.dropWhile test :=
  (congrArg (List.drop _) List.takeWhile_append_dropWhile.symm).trans List.drop_left

theorem bare_iff {inCall : Bool} {text rest : List Char} {name : String}
    (unopened : text.head?.any Name.opens = false) :
    Bare inCall text name rest ↔
      name = String.ofList (bare inCall text) ∧ rest = text.drop (bare inCall text).length := by
  rw [bare, drop_length_takeWhile]
  constructor
  · rintro ⟨within, ends, -⟩
    rename_i run
    obtain ⟨first, last⟩ := eq_takeWhile_append (fun c => !endsBare inCall c) rfl
      (by simpa using within) (by simpa using ends)
    exact ⟨congrArg _ first, last⟩
  · rintro ⟨rfl, rfl⟩
    have whole := List.takeWhile_append_dropWhile (p := fun c => !endsBare inCall c) (l := text)
    have within := mem_takeWhile (fun c => !endsBare inCall c) text
    have ends := head?_dropWhile (fun c => !endsBare inCall c) text
    have derived : Bare inCall (text.takeWhile (fun c => !endsBare inCall c) ++
        text.dropWhile fun c => !endsBare inCall c) _ _ :=
      .intro (by simpa using within) (by simpa using ends) fun c first => by
        rw [← whole, List.head?_append, Option.mem_def.mp first] at unopened
        simpa using unopened
    rwa [whole] at derived

theorem afterWord?_eq_some_iff {word text rest : List Char} :
    afterWord? word text = some rest ↔
      ∃ letters, text = letters ++ rest ∧ letters.map Char.toLower = word.map Char.toLower := by
  induction word generalizing text with
  | nil => cases text <;> simp [afterWord?, eq_comm]
  | cons letter word ih =>
      cases text with
      | nil => simp [afterWord?]
      | cons c text =>
          have split : (∃ letters, c :: text = letters ++ rest ∧
                letters.map Char.toLower = (letter :: word).map Char.toLower) ↔
              c.toLower = letter.toLower ∧ ∃ letters, text = letters ++ rest ∧
                letters.map Char.toLower = word.map Char.toLower := by
            constructor
            · rintro ⟨_ | ⟨d, letters⟩, whole, same⟩
              · cases same
              · obtain ⟨rfl, rfl⟩ := List.cons.inj whole
                exact ⟨(List.cons.inj same).1, letters, rfl, (List.cons.inj same).2⟩
            · rintro ⟨first, letters, rfl, others⟩
              exact ⟨c :: letters, rfl, by simp [first, others]⟩
          rw [split, ← ih]
          by_cases same : c.toLower = letter.toLower <;>
            simp [afterWord?, Cursor.sameLetter, same]

theorem word_iff {word : String} {text rest : List Char} :
    Word word text rest ↔ afterWord? word.toList text = some rest :=
  afterWord?_eq_some_iff.symm

theorem gap_iff {text rest : List Char} :
    Gap text rest ↔ rest = text.dropWhile isBlank ∧ text.takeWhile isBlank ≠ [] := by
  rw [Gap, blanks_iff]
  refine and_congr_right fun same => not_congr ?_
  have whole : text.takeWhile isBlank ++ rest = text := same ▸ List.takeWhile_append_dropWhile
  constructor
  · intro here
    rw [here] at whole
    simpa using whole
  · intro none
    simpa [none] using whole

theorem drop_length_of_afterWord? {word text rest : List Char}
    (found : afterWord? word text = some rest) : text.drop word.length = rest := by
  obtain ⟨letters, rfl, same⟩ := afterWord?_eq_some_iff.mp found
  have length : letters.length = word.length := by simpa using congrArg List.length same
  rw [← length, List.drop_left]

theorem distinct?_iff {text rest : List Char} :
    (∃ length, distinct? text = some length ∧ text.drop length = rest) ↔ Modifier text rest := by
  simp only [Modifier, word_iff, gap_iff]
  unfold distinct?
  cases found : afterWord? "DISTINCT".toList text with
  | none => simp only [reduceCtorEq, false_and, exists_false]
  | some gap =>
      have drop : text.drop ("DISTINCT".length + (gap.takeWhile isBlank).length) =
          gap.dropWhile isBlank := by
        rw [← List.drop_drop, ← drop_length_takeWhile]
        exact congrArg _ (drop_length_of_afterWord? found)
      by_cases none : gap.takeWhile isBlank = []
      · simp only [if_pos none, reduceCtorEq, false_and, exists_false, false_iff]
        rintro ⟨gap', ⟨⟩, -, some⟩
        exact some none
      · simp only [if_neg none, Option.some.injEq, exists_eq_left', drop]
        exact ⟨fun same => ⟨same.symm, none⟩, fun same => same.1.symm⟩

theorem Modifier.unique {text rest other : List Char} (one : Modifier text rest)
    (two : Modifier text other) : rest = other := by
  obtain ⟨gap, word, blanks, -⟩ := one
  obtain ⟨gap', word', blanks', -⟩ := two
  cases (word_iff.mp word).symm.trans (word_iff.mp word')
  exact blanks.unique blanks'

theorem eq_or_upper_of_toLower_eq {c d : Char} (same : c.toLower = d) :
    c = d ∨ (65 ≤ c.toNat ∧ c.toNat ≤ 90 ∧ d.toNat = c.toNat + 32) := by
  unfold Char.toLower at same
  split at same
  · rename_i upper
    have low : 65 ≤ c.toNat := UInt32.le_iff_toNat_le.mp upper.1
    have high : c.toNat ≤ 90 := UInt32.le_iff_toNat_le.mp upper.2
    have code : (c.val + ('a'.val - 'A'.val)).toNat = c.toNat + 32 := by
      simp
      omega
    exact .inr ⟨low, high, by rw [← same, ← code]; rfl⟩
  · exact .inl same

theorem toLower_eq_parenthesis {c : Char} : c.toLower = '(' ↔ c = '(' := by
  constructor
  · intro same
    rcases eq_or_upper_of_toLower_eq same with rfl | ⟨low, -, code⟩
    · rfl
    · have paren : '('.toNat = 40 := rfl
      omega
  · rintro rfl
    rfl

/-- A letter in either case neither ends a bare name nor opens a quoted one. -/
theorem begins_of_toLower_eq {c d : Char} (inCall : Bool) (letter : d.isLower)
    (cased : c.toLower = d) : endsBare inCall c = false ∧ Name.opens c = false := by
  have bounds : 'a'.val ≤ d.val ∧ d.val ≤ 'z'.val := by
    have both : (decide ('a'.val ≤ d.val) && decide (d.val ≤ 'z'.val)) = true := letter
    simpa only [Bool.and_eq_true, decide_eq_true_eq] using both
  have range : 97 ≤ d.toNat ∧ d.toNat ≤ 122 :=
    ⟨UInt32.le_iff_toNat_le.mp bounds.1, UInt32.le_iff_toNat_le.mp bounds.2⟩
  have code : (65 ≤ c.toNat ∧ c.toNat ≤ 90) ∨ (97 ≤ c.toNat ∧ c.toNat ≤ 122) := by
    rcases eq_or_upper_of_toLower_eq cased with rfl | ⟨low, high, -⟩
    · exact .inr range
    · exact .inl ⟨low, high⟩
  have differs (e : Char) (outside : e.toNat < 65 ∨ (90 < e.toNat ∧ e.toNat < 97)) : c ≠ e := by
    rintro rfl
    omega
  have visible : isBlank c = false := by
    simp only [isBlank, Bool.or_eq_false_iff, Bool.and_eq_false_iff, decide_eq_false_iff_not,
      beq_eq_false_iff_ne]
    omega
  constructor
  · simp [endsBare, visible, differs ',' (by decide), differs ')' (by decide)]
  · simp [Name.opens, differs '[' (by decide), differs '"' (by decide), differs '\'' (by decide)]

theorem Word.letters {word : String} {text rest : List Char} (here : Word word text rest)
    (lower : word.toList.all fun d => d.toLower.isLower) : ∃ letters, text = letters ++ rest ∧
      letters.map Char.toLower = word.toList.map Char.toLower ∧
      ∀ c ∈ letters, ∀ inCall, endsBare inCall c = false ∧ Name.opens c = false := by
  obtain ⟨letters, rfl, same⟩ := here
  refine ⟨letters, rfl, same, fun c member inCall => ?_⟩
  have letter : c.toLower ∈ word.toList.map Char.toLower := same ▸ List.mem_map_of_mem member
  obtain ⟨d, letter, cased⟩ := List.mem_map.mp letter
  exact begins_of_toLower_eq inCall (List.all_eq_true.mp lower d letter) cased.symm

theorem all_isLower_toLower_name (keyword : Keyword) :
    keyword.name.toList.all fun d => d.toLower.isLower := by
  cases keyword with
  | aggregate function => cases function <;> decide
  | concat => decide

theorem parenthesis_not_mem_name (keyword : Keyword) :
    '(' ∉ keyword.name.toList.map Char.toLower := by
  cases keyword with
  | aggregate function => cases function <;> decide
  | concat => decide

theorem Keyword.eq_of_name {keyword keyword' : Keyword}
    (names : keyword.name.toList.map Char.toLower = keyword'.name.toList.map Char.toLower) :
    keyword = keyword' := by
  revert names
  cases keyword with
  | aggregate function =>
    cases keyword' with
    | aggregate function' => cases function <;> cases function' <;> decide
    | concat => cases function <;> decide
  | concat =>
    cases keyword' with
    | aggregate function' => cases function' <;> decide
    | concat => exact fun _ => rfl

theorem Call.unique {text inner inner' : List Char} {keyword keyword' : Keyword}
    (one : Call keyword text inner) (other : Call keyword' text inner') :
    keyword = keyword' ∧ inner = inner' := by
  have cut {keyword : Keyword} {letters inner : List Char} (whole : text = letters ++ '(' :: inner)
      (same : letters.map Char.toLower = keyword.name.toList.map Char.toLower) :
      letters = text.takeWhile (· != '(') ∧ '(' :: inner = text.dropWhile (· != '(') := by
    refine eq_takeWhile_append _ whole (fun c member => ?_) (by simp)
    rw [bne_iff_ne]
    rintro rfl
    exact parenthesis_not_mem_name keyword (same ▸ List.mem_map_of_mem member)
  obtain ⟨letters, whole, same⟩ := one
  obtain ⟨letters', whole', same'⟩ := other
  have first := cut whole same
  have second := cut whole' same'
  refine ⟨Keyword.eq_of_name ?_, List.cons.inj (first.2.trans second.2.symm) |>.2⟩
  rw [← same, ← same', first.1, second.1]

theorem afterWord?_call_iff {keyword : Keyword} {text inner : List Char} :
    afterWord? (keyword.name.toList ++ ['(']) text = some inner ↔ Call keyword text inner := by
  rw [afterWord?_eq_some_iff, Call, Word]
  constructor
  · rintro ⟨letters, rfl, same⟩
    obtain ⟨name, last, rfl, named, ends⟩ := List.map_eq_append_iff.mp (same.trans List.map_append)
    obtain ⟨p, rfl, paren⟩ := List.map_eq_singleton_iff.mp ends
    obtain rfl := toLower_eq_parenthesis.mp paren
    exact ⟨name, by simp, named⟩
  · rintro ⟨letters, rfl, same⟩
    exact ⟨letters ++ ['('], by simp, by simp [same]⟩

/-! ## Names of functions, letter by letter -/

namespace Keyword

theorem mem_all (keyword : Keyword) : keyword ∈ Keyword.all := by
  cases keyword with
  | aggregate function => cases function <;> decide
  | concat => decide

theorem begins_iff {letters : List Char} :
    Keyword.begins letters ↔ ∃ keyword : Keyword,
      letters.map Char.toLower <+: keyword.name.toList.map Char.toLower := by
  rw [Keyword.begins, List.any_eq_true]
  constructor
  · rintro ⟨keyword, -, starts⟩
    obtain ⟨others, after⟩ := Option.isSome_iff_exists.mp starts
    obtain ⟨first, whole, same⟩ := afterWord?_eq_some_iff.mp after
    exact ⟨keyword, others.map Char.toLower, by rw [whole, List.map_append, same]⟩
  · rintro ⟨keyword, others, whole⟩
    obtain ⟨first, last, name, same, -⟩ := List.map_eq_append_iff.mp whole.symm
    refine ⟨keyword, mem_all keyword, Option.isSome_iff_exists.mpr ⟨last, ?_⟩⟩
    exact afterWord?_eq_some_iff.mpr ⟨first, name, same⟩

theorem begins_of_append {letters more : List Char} (begins : Keyword.begins (letters ++ more)) :
    Keyword.begins letters := by
  obtain ⟨keyword, within⟩ := begins_iff.mp begins
  rw [List.map_append] at within
  exact begins_iff.mpr ⟨keyword, (List.prefix_append ..).trans within⟩

theorem begins_of_name {keyword : Keyword} {letters : List Char}
    (name : letters.map Char.toLower = keyword.name.toList.map Char.toLower) :
    Keyword.begins letters :=
  begins_iff.mpr ⟨keyword, name ▸ List.prefix_rfl⟩

theorem not_begins_parenthesis (letters : List Char) :
    Keyword.begins (letters ++ ['(']) = false := by
  rw [← Bool.not_eq_true, begins_iff]
  rintro ⟨keyword, within⟩
  refine parenthesis_not_mem_name keyword (within.subset ?_)
  simp [toLower_eq_parenthesis]

theorem letters_of_begins {letters : List Char} (begins : Keyword.begins letters) :
    ∀ c ∈ letters, ∀ inCall, endsBare inCall c = false ∧ Name.opens c = false := by
  obtain ⟨keyword, within⟩ := begins_iff.mp begins
  intro c member inCall
  obtain ⟨d, letter, cased⟩ := List.mem_map.mp (within.subset (List.mem_map_of_mem member))
  exact begins_of_toLower_eq inCall
    (List.all_eq_true.mp (all_isLower_toLower_name keyword) d letter) cased.symm

theorem ofLetters?_eq_some_iff {letters : List Char} {keyword : Keyword} :
    Keyword.ofLetters? letters = some keyword ↔
      letters.map Char.toLower = keyword.name.toList.map Char.toLower := by
  have names (keyword : Keyword) : afterWord? letters keyword.name.toList = some [] ↔
      letters.map Char.toLower = keyword.name.toList.map Char.toLower := by
    rw [afterWord?_eq_some_iff]
    simp [eq_comm]
  have named {keyword : Keyword} (found : Keyword.ofLetters? letters = some keyword) :
      letters.map Char.toLower = keyword.name.toList.map Char.toLower := by
    have here := List.find?_some found
    exact (names keyword).mp (beq_iff_eq.mp here)
  refine ⟨named, fun name => ?_⟩
  cases found : Keyword.ofLetters? letters with
  | none =>
      have missing := List.find?_eq_none.mp found keyword (mem_all keyword)
      simp [(names keyword).mpr name] at missing
  | some other => rw [eq_of_name ((named found).symm.trans name)]

end Keyword

/-- Letters are read for as long as they begin a name, and no further. -/
theorem spelled_append {before more rest : List Char}
    (begins : more = [] ∨ Keyword.begins (before ++ more))
    (stops : ∀ c ∈ rest.head?, Keyword.begins (before ++ more ++ [c]) = false) :
    spelled before (more ++ rest) = before ++ more := by
  induction more generalizing before with
  | nil =>
      rw [List.append_nil] at stops
      cases rest with
      | nil => simp [spelled]
      | cons c rest => simp [spelled, stops c rfl]
  | cons c more ih =>
      have whole := begins.resolve_left (List.cons_ne_nil c more)
      rw [List.append_cons] at whole stops
      have first := Keyword.begins_of_append whole
      rw [List.cons_append, spelled, if_pos first, ih (.inr whole) stops, ← List.append_cons]

theorem exists_spelled (before text : List Char) : ∃ more rest, text = more ++ rest ∧
    spelled before text = before ++ more ∧ (more = [] ∨ Keyword.begins (before ++ more)) := by
  induction text generalizing before with
  | nil => exact ⟨[], [], rfl, by simp [spelled], .inl rfl⟩
  | cons c text ih =>
      rw [spelled]
      split
      · rename_i first
        obtain ⟨more, rest, rfl, read, begins⟩ := ih (before ++ [c])
        refine ⟨c :: more, rest, rfl, by rw [read, ← List.append_cons], .inr ?_⟩
        rw [List.append_cons]
        rcases begins with rfl | begins
        · rwa [List.append_nil]
        · exact begins
      · exact ⟨[], c :: text, rfl, (List.append_nil before).symm, .inl rfl⟩

theorem call?_eq_some_iff {text : List Char} {keyword : Keyword} :
    call? text = some keyword ↔ ∃ inner, Call keyword text inner := by
  constructor
  · intro found
    obtain ⟨letters, rest, rfl, read, -⟩ := exists_spelled [] text
    rw [List.nil_append] at read
    rw [call?, read, List.drop_left] at found
    split at found
    · rename_i inner
      exact ⟨inner, letters, rfl, Keyword.ofLetters?_eq_some_iff.mp found⟩
    · cases found
  · rintro ⟨inner, letters, rfl, name⟩
    have read : spelled [] (letters ++ '(' :: inner) = letters := by
      refine spelled_append (.inr (Keyword.begins_of_name name)) fun c first => ?_
      cases first
      exact Keyword.not_begins_parenthesis _
    rw [call?, read, List.drop_left]
    exact Keyword.ofLetters?_eq_some_iff.mpr name

theorem call?_eq_none_iff {text : List Char} :
    call? text = none ↔ ¬ ∃ keyword inner, Call keyword text inner := by
  simp only [← call?_eq_some_iff, ← Option.isSome_iff_exists, Option.not_isSome_iff_eq_none]

theorem Call.drop_eq {text inner : List Char} {keyword : Keyword} (call : Call keyword text inner) :
    text.drop (keyword.name.length + 1) = inner := by
  have after := drop_length_of_afterWord? (afterWord?_call_iff.mpr call)
  rwa [List.length_append, String.length_toList] at after

theorem introducer_iff {text rest : List Char} :
    Introducer text rest ↔ ∃ gap, afterWord? "AS".toList (text.dropWhile isBlank) = some gap ∧
      rest = gap.dropWhile isBlank ∧ gap.takeWhile isBlank ≠ [] := by
  simp only [Introducer, word_iff, gap_iff, blanks_iff, exists_and_left, exists_eq_left]

theorem Introducer.unique {text rest other : List Char} (one : Introducer text rest)
    (two : Introducer text other) : rest = other := by
  obtain ⟨gap, found, rfl, -⟩ := introducer_iff.mp one
  obtain ⟨_, found', rfl, -⟩ := introducer_iff.mp two
  cases found.symm.trans found'
  rfl

theorem label?_iff {text rest : List Char} :
    (∃ length, label? text = some length ∧ text.drop length = rest) ↔
      Introducer text rest ∧ ∃ c ∈ rest.head?, c ≠ ',' := by
  rw [introducer_iff]
  unfold label?
  cases found : afterWord? "AS".toList (text.dropWhile isBlank) with
  | none => simp only [reduceCtorEq, false_and, exists_false]
  | some gap =>
      have drop : text.drop ((text.takeWhile isBlank).length + "AS".length +
          (gap.takeWhile isBlank).length) = gap.dropWhile isBlank := by
        rw [← List.drop_drop, ← List.drop_drop, drop_length_takeWhile, ← drop_length_takeWhile gap]
        exact congrArg _ (drop_length_of_afterWord? found)
      simp only [Option.some.injEq, exists_eq_left']
      cases after : gap.dropWhile isBlank with
      | nil =>
          simp only [reduceCtorEq, false_and, exists_false, false_iff]
          rintro ⟨⟨rfl, -⟩, c, first, -⟩
          cases first
      | cons first others =>
          by_cases none : gap.takeWhile isBlank = [] ∨ first = ','
          · simp only [if_pos none, reduceCtorEq, false_and, exists_false, false_iff]
            rintro ⟨⟨rfl, some⟩, c, start, other⟩
            cases start
            exact none.elim some other
          · simp only [if_neg none, Option.some.injEq, exists_eq_left', drop, after]
            obtain ⟨some, other⟩ := not_or.mp none
            constructor
            · rintro rfl
              exact ⟨⟨rfl, some⟩, first, rfl, other⟩
            · exact fun same => same.1.1.symm

theorem quoted_iff {opening : Char} {text rest : List Char} {name : String}
    (opens : Name.opens opening) :
    Quoted (opening :: text) name rest ↔
      (quoted (Name.closing opening) text).closed ∧
      name = String.ofList (quoted (Name.closing opening) text).text ∧
      rest = text.drop (quoted (Name.closing opening) text).length := by
  have whole := List.takeWhile_append_dropWhile (p := (· != Name.closing opening)) (l := text)
  constructor
  · rintro ⟨-, within⟩
    rename_i name
    have inside (c : Char) (member : c ∈ name) : (c != Name.closing opening) = true := by
      rw [bne_iff_ne]
      rintro rfl
      exact within member
    have taken : (name ++ Name.closing opening :: rest).takeWhile
        (· != Name.closing opening) = name := by
      rw [List.takeWhile_append_of_pos inside]
      simp
    simp [quoted, taken]
  · unfold quoted
    by_cases more : (text.takeWhile (· != Name.closing opening)).length < text.length
    · simp only [if_pos more]
      rintro ⟨-, rfl, rfl⟩
      cases after : text.dropWhile (· != Name.closing opening) with
      | nil =>
          rw [after, List.append_nil] at whole
          simp [whole] at more
      | cons c rest =>
          have stops := head?_dropWhile (· != Name.closing opening) text
          rw [after] at stops
          obtain rfl : c = Name.closing opening := by simpa using stops
          have within : Name.closing opening ∉ text.takeWhile (· != Name.closing opening) := by
            intro member
            simpa using mem_takeWhile _ _ _ member
          have derived : Quoted (opening :: text.takeWhile (· != Name.closing opening) ++
              Name.closing opening :: rest) _ _ := .intro opens within
          rw [List.cons_append, ← after, whole] at derived
          rwa [← List.drop_drop, drop_length_takeWhile, after]
    · simp [if_neg more]

def doubled (text : List Char) : List Char :=
  text.flatMap fun c => if c = '\'' then ['\'', '\''] else [c]

theorem literal_of_ends {rest : List Char} (ends : rest.head? ≠ some '\'') :
    literal ('\'' :: rest) = ⟨[], 1, true⟩ := by
  cases rest with
  | nil => rfl
  | cons c rest =>
      have other : c ≠ '\'' := by simpa using ends
      unfold literal
      split
      · cases ‹_ = []›
      · rename_i same
        exact absurd (List.cons.inj (List.cons.inj same).2).1 other
      · rfl
      · rename_i different same
        exact absurd (List.cons.inj same).1.symm different

theorem literal_of_other {c : Char} (text : List Char) (other : c ≠ '\'') :
    literal (c :: text) =
      ⟨c :: (literal text).text, (literal text).length + 1, (literal text).closed⟩ := by
  rw [literal] <;> simp [other]

theorem literal_doubled {text rest : List Char} (ends : rest.head? ≠ some '\'') :
    literal (doubled text ++ '\'' :: rest) = ⟨text, (doubled text).length + 1, true⟩ := by
  induction text with
  | nil => exact literal_of_ends ends
  | cons c text ih =>
      by_cases quote : c = '\''
      · subst quote
        have first : doubled ('\'' :: text) = '\'' :: '\'' :: doubled text := rfl
        simp [first, literal, ih]
      · have first : doubled (c :: text) = c :: doubled text := by simp [doubled, quote]
        simp [first, literal_of_other _ quote, ih]

theorem eq_doubled_of_literal {text : List Char} (closed : (literal text).closed) :
    text = doubled (literal text).text ++ '\'' :: text.drop (literal text).length ∧
      (text.drop (literal text).length).head? ≠ some '\'' := by
  fun_induction literal text with
  | case1 => cases closed
  | case2 rest read ih =>
      obtain ⟨whole, ends⟩ := ih closed
      refine ⟨?_, ends⟩
      simpa [doubled] using whole
  | case3 rest single =>
      cases rest with
      | nil => simp [doubled]
      | cons c rest =>
          refine ⟨rfl, ?_⟩
          simp
          rintro rfl
          exact single _ rfl
  | case4 c rest x other read ih =>
      obtain ⟨whole, ends⟩ := ih closed
      refine ⟨?_, ends⟩
      have different : c ≠ '\'' := other
      simpa [doubled, different] using whole

/-! ## First characters -/

theorem Quoted.opens {text rest : List Char} {name : String} (here : Quoted text name rest) :
    text.head?.any Name.opens = true := by
  obtain ⟨opens, -⟩ := here
  exact opens

theorem endsBare_of_opens {inCall : Bool} {c : Char} (opens : Name.opens c = true) :
    endsBare inCall c = false := by
  simp only [Name.opens, Bool.or_eq_true, beq_iff_eq] at opens
  rcases opens with (rfl | rfl) | rfl <;> cases inCall <;> rfl

theorem opens_of_endsBare {inCall : Bool} {c : Char} (ends : endsBare inCall c = true) :
    Name.opens c = false := by
  cases opens : Name.opens c with
  | false => rfl
  | true => exact absurd ends (by simp [endsBare_of_opens opens])

theorem Bare.unopened {inCall : Bool} {text rest : List Char} {name : String}
    (here : Bare inCall text name rest) : text.head?.any Name.opens = false := by
  obtain ⟨-, ends, unopened⟩ := here
  rename_i run
  cases run with
  | cons c run => simpa using unopened
  | nil =>
      cases rest with
      | nil => rfl
      | cons c rest => exact opens_of_endsBare (by simpa using ends)

theorem Bare.starts {inCall : Bool} {text rest : List Char} {name : String}
    (here : Bare inCall text name rest) (some : name ≠ "") :
    ∃ c others, text = c :: others ∧ endsBare inCall c = false := by
  obtain ⟨within, -, -⟩ := here
  rename_i run
  cases run with
  | nil => exact absurd rfl some
  | cons c run => exact ⟨c, run ++ rest, rfl, by simpa using within c (by simp)⟩

theorem Bare.ne_empty {inCall : Bool} {first : Char} {others rest : List Char} {name : String}
    (begins : endsBare inCall first = false) (here : Bare inCall (first :: others) name rest) :
    name ≠ "" := by
  generalize whole : first :: others = text at here
  obtain ⟨-, ends, -⟩ := here
  rename_i run
  cases run with
  | nil =>
      subst whole
      simp [begins] at ends
  | cons c run => exact fun none => by simpa using congrArg String.toList none

theorem Quoted.starts {inCall : Bool} {text rest : List Char} {name : String}
    (here : Quoted text name rest) :
    ∃ c others, text = c :: others ∧ endsBare inCall c = false := by
  obtain ⟨opens, -⟩ := here
  exact ⟨_, _, rfl, endsBare_of_opens opens⟩

theorem OperandText.starts {text rest : List Char} {operand : Operand}
    (here : OperandText text operand rest) :
    ∃ c others, text = c :: others ∧ endsBare true c = false := by
  cases here with
  | literal => exact ⟨'\'', _, rfl, rfl⟩
  | quoted quoted => exact quoted.starts
  | bare bare some => exact bare.starts some

theorem OperandText.length_lt {text rest : List Char} {operand : Operand}
    (here : OperandText text operand rest) : rest.length < text.length := by
  cases here with
  | literal =>
      simp only [literalChars, List.cons_append, List.length_cons, List.length_append]
      omega
  | quoted quoted =>
      obtain ⟨-, -⟩ := quoted
      simp only [List.cons_append, List.length_cons, List.length_append]
      omega
  | bare bare some =>
      obtain ⟨-, -, -⟩ := bare
      rename_i run
      cases run with
      | nil => exact absurd rfl some
      | cons c run =>
          simp only [List.cons_append, List.length_cons, List.length_append]
          omega

theorem OperandsText.starts {text start rest : List Char} {operands : List Operand}
    (here : OperandsText text operands rest) (blanks : Blanks text start) :
    ∃ c others, start = c :: others ∧ endsBare true c = false := by
  cases here with
  | last before operand _ =>
      obtain rfl := blanks.unique before
      exact operand.starts
  | more before operand _ _ =>
      obtain rfl := blanks.unique before
      exact operand.starts

theorem LabelText.starts {text rest : List Char} {name : String}
    (here : LabelText text name rest) :
    ∃ c others, text = c :: others ∧ endsBare false c = false := by
  cases here with
  | quoted quoted => exact quoted.starts
  | bare bare some => exact bare.starts some

theorem Call.starts {keyword : Keyword} {text inner : List Char}
    (here : Call keyword text inner) :
    ∃ c others, text = c :: others ∧ endsBare false c = false ∧ Name.opens c = false := by
  obtain ⟨letters, rfl, same, begins⟩ := Word.letters here (all_isLower_toLower_name keyword)
  cases letters with
  | nil =>
      exfalso
      revert same
      cases keyword with
      | aggregate function => cases function <;> decide
      | concat => decide
  | cons c letters => exact ⟨c, _, rfl, begins c (by simp) false⟩

theorem TermText.starts {rule : OperandRule} {text rest : List Char} {term : Term}
    (here : TermText rule text term rest) :
    ∃ c others, text = c :: others ∧ endsBare false c = false := by
  have called {keyword : Keyword} {inner : List Char} (call : Call keyword text inner) :
      ∃ c others, text = c :: others ∧ endsBare false c = false := by
    obtain ⟨c, others, whole, begins, -⟩ := call.starts
    exact ⟨c, others, whole, begins⟩
  cases here with
  | quoted quoted => exact quoted.starts
  | aggregate call => exact called call
  | concat call => exact called call
  | bare bare some => exact bare.starts some

theorem ItemText.starts {rule : OperandRule} {text rest : List Char} {e : Expression}
    (here : ItemText rule text e rest) :
    ∃ c others, text = c :: others ∧ endsBare false c = false := by
  cases here with
  | plain term => exact term.starts
  | labelled term => exact term.starts

/-! ## Alternatives by the first character -/

theorem column_iff_quoted {text rest : List Char} {name : String}
    (opened : text.head?.any Name.opens = true) :
    Column text name rest ↔ Quoted text name rest := by
  refine ⟨fun here => ?_, .quoted⟩
  cases here with
  | quoted quoted => exact quoted
  | star => cases opened
  | bare bare => cases bare.unopened.symm.trans opened

theorem column_iff_bare {text rest : List Char} {name : String}
    (unopened : text.head?.any Name.opens = false) (other : text.head? ≠ some '*') :
    Column text name rest ↔ Bare true text name rest := by
  refine ⟨fun here => ?_, fun bare => .bare bare other⟩
  cases here with
  | quoted quoted => cases unopened.symm.trans quoted.opens
  | star => exact absurd rfl other
  | bare bare => exact bare

theorem operandText_iff_literal {text rest : List Char} {operand : Operand}
    (quote : text.head? = some '\'') :
    OperandText text operand rest ↔ ∃ chars, operand = .literal (String.ofList chars) ∧
      text = literalChars chars ++ rest ∧ rest.head? ≠ some '\'' := by
  constructor
  · intro here
    cases here with
    | literal ends => exact ⟨_, rfl, rfl, ends⟩
    | quoted _ other => exact absurd quote other
    | bare bare =>
        have unopened := bare.unopened
        rw [quote] at unopened
        cases unopened
  · rintro ⟨chars, rfl, rfl, ends⟩
    exact .literal ends

theorem operandText_iff_quoted {text rest : List Char} {operand : Operand}
    (opened : text.head?.any Name.opens = true) (other : text.head? ≠ some '\'') :
    OperandText text operand rest ↔
      ∃ name, operand = .column name ∧ Quoted text name rest := by
  constructor
  · intro here
    cases here with
    | literal => exact absurd rfl other
    | quoted quoted => exact ⟨_, rfl, quoted⟩
    | bare bare => cases bare.unopened.symm.trans opened
  · rintro ⟨name, rfl, quoted⟩
    exact .quoted quoted other

theorem operandText_iff_bare {first : Char} {others rest : List Char} {operand : Operand}
    (unopened : Name.opens first = false) (begins : endsBare true first = false) :
    OperandText (first :: others) operand rest ↔
      ∃ name, operand = .column name ∧ Bare true (first :: others) name rest := by
  constructor
  · generalize whole : first :: others = text
    intro here
    have closed : text.head?.any Name.opens = false := whole ▸ unopened
    cases here with
    | literal => cases closed
    | quoted quoted => cases closed.symm.trans quoted.opens
    | bare bare => exact ⟨_, rfl, bare⟩
  · rintro ⟨name, rfl, bare⟩
    exact .bare bare (bare.ne_empty begins)

section
variable {rule : OperandRule} {text rest : List Char} {term : Term}

theorem termText_iff_quoted (opened : text.head?.any Name.opens = true) :
    TermText rule text term rest ↔ ∃ name, term = .column name ∧ Quoted text name rest := by
  have uncalled {keyword : Keyword} {inner : List Char} : ¬ Call keyword text inner := by
    intro call
    obtain ⟨first, others, rfl, -, unopened⟩ := call.starts
    cases opened.symm.trans unopened
  constructor
  · intro here
    cases here with
    | quoted quoted => exact ⟨_, rfl, quoted⟩
    | aggregate call => exact absurd call uncalled
    | concat call => exact absurd call uncalled
    | bare bare => cases bare.unopened.symm.trans opened
  · rintro ⟨name, rfl, quoted⟩
    exact .quoted quoted

theorem termText_iff_call {keyword : Keyword} {inner : List Char} (call : Call keyword text inner) :
    TermText rule text term rest ↔
      match keyword with
      | .aggregate function => ∃ column distinct,
          term = .aggregate (.of function column distinct rule) ∧
            Argument inner (column, distinct) rest
      | .concat => ∃ operands, term = .concat operands ∧ OperandsText inner operands rest := by
  constructor
  · intro here
    cases here with
    | quoted quoted =>
        obtain ⟨first, others, rfl, -, unopened⟩ := call.starts
        cases quoted.opens.symm.trans unopened
    | aggregate other argument =>
        obtain ⟨rfl, rfl⟩ := call.unique other
        exact ⟨_, _, rfl, argument⟩
    | concat other operands =>
        obtain ⟨rfl, rfl⟩ := call.unique other
        exact ⟨_, rfl, operands⟩
    | bare _ _ uncalled => exact absurd ⟨_, _, call⟩ uncalled
  · cases keyword with
    | aggregate function =>
        rintro ⟨column, distinct, rfl, argument⟩
        exact .aggregate call argument
    | concat =>
        rintro ⟨operands, rfl, read⟩
        exact .concat call read

theorem termText_iff_bare {first : Char} {others : List Char}
    (unopened : Name.opens first = false) (begins : endsBare false first = false)
    (uncalled : ¬ ∃ keyword inner, Call keyword (first :: others) inner) :
    TermText rule (first :: others) term rest ↔
      ∃ name, term = .column name ∧ Bare false (first :: others) name rest := by
  constructor
  · intro here
    cases here with
    | quoted quoted => cases quoted.opens.symm.trans unopened
    | aggregate call => exact absurd ⟨_, _, call⟩ uncalled
    | concat call => exact absurd ⟨_, _, call⟩ uncalled
    | bare bare => exact ⟨_, rfl, bare⟩
  · rintro ⟨name, rfl, bare⟩
    exact .bare bare (bare.ne_empty begins) uncalled

end

section
variable {text rest : List Char} {name : String}

theorem labelText_iff_quoted (opened : text.head?.any Name.opens = true) :
    LabelText text name rest ↔ Quoted text name rest := by
  refine ⟨fun here => ?_, .quoted⟩
  cases here with
  | quoted quoted => exact quoted
  | bare bare => cases bare.unopened.symm.trans opened

theorem labelText_iff_bare {first : Char} {others : List Char}
    (unopened : Name.opens first = false) (begins : endsBare false first = false) :
    LabelText (first :: others) name rest ↔ Bare false (first :: others) name rest := by
  refine ⟨fun here => ?_, fun bare => .bare bare (bare.ne_empty begins)⟩
  cases here with
  | quoted quoted => cases quoted.opens.symm.trans unopened
  | bare bare => exact bare

end

end RowQuery.Grammar
