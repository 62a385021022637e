import RowQuery.Proofs.Grammar.Lookahead

/-!
# Printed names in the grammar

A printed name stands either as it is or in quotes. Wherever the grammar has a name, the printed one
is read back if some style of quotes holds it (`Quotable`), and a name cannot be read as a star.
-/

namespace RowQuery.Name

open Text (isBlank)
open Lookahead (endsBare)

/-- A name with nothing in it that asks for quotes. -/
def Plain (name : String) : Prop :=
  name ≠ "" ∧ ∀ c ∈ name.toList, ¬ needsQuotes c

/-- A name that leaves out the closing character of at least one style of quotes. -/
def Quotable (name : String) : Prop :=
  ¬ (']' ∈ name.toList ∧ '"' ∈ name.toList ∧ '\'' ∈ name.toList)

/-- A longer name that starts with a star and stands without quotes. -/
def Starred (name : String) : Prop :=
  1 < name.toList.length ∧ name.toList.head? = some '*' ∧ ∀ c ∈ name.toList, ¬ needsQuotes c

instance (name : String) : Decidable (Quotable name) :=
  inferInstanceAs (Decidable (¬ (_ ∧ _ ∧ _)))

instance (name : String) : Decidable (Starred name) :=
  decidable_of_iff (1 < name.toList.length ∧ name.toList.head? = some '*' ∧
    name.toList.all (fun c => !needsQuotes c) = true) (by simp [Starred])

theorem quotable_of_plain {name : String} (plain : Plain name) : Quotable name := by
  rintro ⟨bracket, -, -⟩
  exact plain.2 _ bracket rfl

theorem quotable_empty : Quotable "" := by
  simp [Quotable]

theorem plain_of_starred {name : String} (starred : Starred name) : Plain name := by
  obtain ⟨long, -, bare⟩ := starred
  refine ⟨?_, bare⟩
  rintro rfl
  simp at long

theorem not_starred_of_not_plain {name : String} (quoted : ¬ Plain name) : ¬ Starred name :=
  fun starred => quoted (plain_of_starred starred)

theorem quoteChars_of_plain {name : String} (plain : Plain name) :
    quoteChars name.toList = name.toList := by
  obtain ⟨some, bare⟩ := plain
  have unquoted : (!name.toList.isEmpty && !name.toList.any needsQuotes) = true := by
    simpa [some] using bare
  rw [quoteChars, if_pos unquoted]

/-- The style of quotes around a printed name. -/
structure Style (name : String) (opening : Char) : Prop where
  opens : opens opening = true
  printed : quoteChars name.toList = opening :: name.toList ++ [closing opening]
  quotable : closing opening ∉ name.toList ↔ Quotable name
  single : opening = '\'' ↔ ']' ∈ name.toList ∧ '"' ∈ name.toList

theorem exists_style {name : String} (quoted : ¬ Plain name) : ∃ opening, Style name opening := by
  have unquoted : ¬ (!name.toList.isEmpty && !name.toList.any needsQuotes) = true := by
    intro bare
    refine quoted ⟨?_, ?_⟩
    · rintro rfl
      simp at bare
    · simp only [Bool.and_eq_true, Bool.not_eq_true', List.any_eq_false] at bare
      exact bare.2
  by_cases bracket : ']' ∈ name.toList
  · by_cases double : '"' ∈ name.toList
    · refine ⟨'\'', rfl, ?_, ?_, ?_⟩
      · rw [quoteChars, if_neg unquoted]
        simp [bracket, double, closing]
      · simp [Quotable, closing, bracket, double]
      · simp [bracket, double]
    · refine ⟨'"', rfl, ?_, ?_, ?_⟩
      · rw [quoteChars, if_neg unquoted]
        simp [bracket, double, closing]
      · simp [Quotable, closing, double]
      · simp [double]
  · refine ⟨'[', rfl, ?_, ?_, ?_⟩
    · rw [quoteChars, if_neg unquoted]
      simp [bracket, closing]
    · simp [Quotable, closing, bracket]
    · simp [bracket]

theorem Style.append {name : String} {opening : Char} (style : Style name opening)
    (rest : List Char) : quoteChars name.toList ++ rest =
      opening :: (name.toList ++ closing opening :: rest) := by
  rw [style.printed, List.append_assoc]
  rfl

theorem needsQuotes_of_endsBare {inCall : Bool} {c : Char} (ends : endsBare inCall c = true) :
    needsQuotes c = true := by
  simp only [endsBare, Bool.or_eq_true, Bool.and_eq_true, beq_iff_eq] at ends
  simp only [needsQuotes, Bool.or_eq_true, beq_iff_eq]
  rcases ends with (blank | comma) | ⟨-, close⟩
  · simp [blank]
  · simp [comma]
  · simp [close]

theorem needsQuotes_of_opens {c : Char} (opens : Name.opens c = true) : needsQuotes c = true := by
  simp only [Name.opens, Bool.or_eq_true, beq_iff_eq] at opens
  simp only [needsQuotes, Bool.or_eq_true, beq_iff_eq]
  rcases opens with (bracket | double) | single
  · simp [bracket]
  · simp [double]
  · simp [single]

end RowQuery.Name

namespace RowQuery.Grammar

open Text (isBlank)
open Name (quoteChars Plain Quotable Starred)
open Lookahead (endsBare)

section
variable {inCall : Bool} {name read : String} {text rest left : List Char}

theorem quoteChars_starts (inCall : Bool) (name : String) :
    ∃ c others, quoteChars name.toList = c :: others ∧ endsBare inCall c = false := by
  by_cases plain : Plain name
  · obtain ⟨c, others, starts⟩ := List.exists_cons_of_ne_nil (l := name.toList)
      (by simpa using plain.1)
    refine ⟨c, others, (Name.quoteChars_of_plain plain).trans starts, ?_⟩
    have unquoted := plain.2 c (by simp [starts])
    exact Bool.eq_false_iff.mpr fun ends => unquoted (Name.needsQuotes_of_endsBare ends)
  · obtain ⟨opening, style⟩ := Name.exists_style plain
    exact ⟨opening, _, style.printed, endsBare_of_opens style.opens⟩

theorem quoted_style_iff {opening : Char} (style : Name.Style name opening) :
    Quoted (quoteChars name.toList ++ rest) name left ↔ Quotable name ∧ left = rest := by
  rw [← style.quotable, style.append]
  constructor
  · generalize same : opening :: (name.toList ++ Name.closing opening :: rest) = text
    intro here
    obtain ⟨-, inside⟩ := here
    rename_i first chars
    rw [String.toList_ofList, List.cons_append] at same
    obtain ⟨rfl, same⟩ := List.cons.inj same
    rw [String.toList_ofList]
    exact ⟨inside, ((List.cons.inj (List.append_cancel_left same)).2).symm⟩
  · rintro ⟨inside, rfl⟩
    have here : Quoted (opening :: name.toList ++ Name.closing opening :: left) _ left :=
      .intro style.opens inside
    rwa [String.ofList_toList] at here

theorem plain_cut (inCall : Bool) (plain : Plain name)
    (ends : ∀ c ∈ rest.head?, endsBare inCall c) :
    name.toList = (name.toList ++ rest).takeWhile (fun c => !endsBare inCall c) ∧
      rest = (name.toList ++ rest).dropWhile (fun c => !endsBare inCall c) := by
  have inside : ∀ c ∈ name.toList, ¬ endsBare inCall c :=
    fun c member ends => plain.2 c member (Name.needsQuotes_of_endsBare ends)
  exact eq_takeWhile_append _ rfl (by simpa using inside) (by simpa using ends)

theorem bare_plain_iff (plain : Plain name) (ends : ∀ c ∈ rest.head?, endsBare inCall c) :
    Bare inCall (name.toList ++ rest) read left ↔ read = name ∧ left = rest := by
  have unopened : (name.toList ++ rest).head?.any Name.opens = false := by
    obtain ⟨c, others, starts⟩ := List.exists_cons_of_ne_nil (l := name.toList)
      (by simpa using plain.1)
    have unquoted := plain.2 c (by simp [starts])
    have closed : Name.opens c = false :=
      Bool.eq_false_iff.mpr fun opens => unquoted (Name.needsQuotes_of_opens opens)
    simpa [starts] using closed
  obtain ⟨first, last⟩ := plain_cut inCall plain ends
  rw [bare_iff unopened, Lookahead.bare, drop_length_takeWhile, ← first, ← last,
    String.ofList_toList]

theorem labelText_quoteChars_iff (ends : ∀ c ∈ rest.head?, endsBare false c) :
    LabelText (quoteChars name.toList ++ rest) name left ↔ Quotable name ∧ left = rest := by
  by_cases plain : Plain name
  · rw [Name.quoteChars_of_plain plain, iff_true_intro (Name.quotable_of_plain plain), true_and]
    have bare : Bare false (name.toList ++ rest) name rest :=
      (bare_plain_iff plain ends).mpr ⟨rfl, rfl⟩
    constructor
    · intro here
      cases here with
      | quoted quoted => cases bare.unopened.symm.trans quoted.opens
      | bare bare => exact ((bare_plain_iff plain ends).mp bare).2
    · rintro rfl
      exact .bare bare plain.1
  · obtain ⟨opening, style⟩ := Name.exists_style plain
    rw [labelText_iff_quoted (by simp [style.append, style.opens]), quoted_style_iff style]

theorem column_iff_star : Column ('*' :: text) name left ↔ name = "*" ∧ left = text := by
  constructor
  · intro here
    cases here with
    | quoted quoted => cases quoted.opens
    | star => exact ⟨rfl, rfl⟩
    | bare _ other => exact absurd rfl other
  · rintro ⟨rfl, rfl⟩
    exact .star

theorem column_quoteChars_iff (ends : ∀ c ∈ rest.head?, endsBare true c) :
    Column (quoteChars name.toList ++ rest) name left ↔
      (Quotable name ∧ ¬ Starred name) ∧ left = rest := by
  by_cases plain : Plain name
  · rw [Name.quoteChars_of_plain plain, iff_true_intro (Name.quotable_of_plain plain), true_and]
    have bare : Bare true (name.toList ++ rest) name rest :=
      (bare_plain_iff plain ends).mpr ⟨rfl, rfl⟩
    by_cases star : name.toList.head? = some '*'
    · obtain ⟨others, starts⟩ := List.head?_eq_some_iff.mp star
      have starred : Starred name ↔ others ≠ [] := by
        rw [Starred, starts, ← starts, and_iff_left plain.2, and_iff_left star]
        simp [starts, List.length_pos_iff]
      have single : name = "*" ↔ others = [] := by
        rw [← String.toList_inj, starts]
        simp
      rw [starts, List.cons_append, column_iff_star, single, starred, Decidable.not_not]
      refine and_congr_right ?_
      rintro rfl
      rfl
    · have unstarred : ¬ Starred name := fun starred => star starred.2.1
      have head : (name.toList ++ rest).head? ≠ some '*' := by
        obtain ⟨c, others, starts⟩ := List.exists_cons_of_ne_nil (l := name.toList)
          (by simpa using plain.1)
        simpa [starts] using star
      rw [column_iff_bare bare.unopened head, bare_plain_iff plain ends]
      simp [unstarred]
  · obtain ⟨opening, style⟩ := Name.exists_style plain
    rw [column_iff_quoted (by simp [style.append, style.opens]), quoted_style_iff style,
      and_iff_left (Name.not_starred_of_not_plain plain)]

end

end RowQuery.Grammar
