import Mathlib.Data.List.Forall2
import Mathlib.Tactic.SplitIfs
import RowQuery.Json.Lines

/-!
# The rows of a text

The bytes of a text are cut into lines at the byte of a line feed, which is part of no other
character, so the lines are those of the text. Each is blank, or holds a row, or is a fault; the
rows of a text are those of its lines, and its fault is that of the first line that is one
(`ofInput_eq_ok_iff`, `ofInput_eq_error_iff`).
-/

namespace RowQuery

/-! ## Lines and bytes -/

namespace Text

section
variable {α : Type} {separates : α → Bool}

theorem exists_pieces (separates : α → Bool) (list : List α) :
    ∃ piece others, pieces separates list = piece :: others := by
  induction list with
  | nil => exact ⟨[], [], rfl⟩
  | cons x rest ih =>
      obtain ⟨piece, others, cut⟩ := ih
      rw [pieces, cut]
      split
      · exact ⟨[], piece :: others, rfl⟩
      · exact ⟨x :: piece, others, rfl⟩

theorem pieces_append {before after piece : List α} {others : List (List α)}
    (kept : ∀ x ∈ before, separates x = false) (cut : pieces separates after = piece :: others) :
    pieces separates (before ++ after) = (before ++ piece) :: others := by
  induction before with
  | nil => exact cut
  | cons x before ih =>
      obtain ⟨here, later⟩ := List.forall_mem_cons.mp kept
      simp [pieces, here, ih later]

end

/-- The lines of a text, without the line feeds between them. -/
def lines (text : String) : List (List Char) :=
  pieces (· == '\n') text.toList

theorem ne_lineFeed_of_mem_encode {c : Char} (other : c ≠ '\n') :
    ∀ byte ∈ String.utf8EncodeChar c, (byte == 10) = false := by
  have code : c.val.toNat ≠ 10 := fun same => other (Char.ext (UInt32.toNat_inj.mp same))
  have feed : (10 : UInt8).toNat = 10 := rfl
  intro byte member
  rw [beq_eq_false_iff_ne]
  rintro rfl
  simp only [String.utf8EncodeChar] at member
  -- One byte is the code itself; in longer encodings every byte is at least 128.
  split_ifs at member <;>
    simp only [List.mem_cons, List.not_mem_nil, or_false, ← UInt8.toNat_inj,
      UInt8.toNat_ofNat'] at member <;>
    omega

theorem pieces_encode (text : List Char) :
    pieces (· == 10) (text.flatMap String.utf8EncodeChar) =
      (pieces (· == '\n') text).map (List.flatMap String.utf8EncodeChar) := by
  induction text with
  | nil => rfl
  | cons c text ih =>
      obtain ⟨piece, others, cut⟩ := exists_pieces (· == '\n') text
      rw [cut] at ih
      rw [List.flatMap_cons, pieces, cut]
      by_cases feed : c = '\n'
      · subst feed
        rw [show String.utf8EncodeChar '\n' = [10] from rfl, List.singleton_append, pieces, ih]
        rfl
      · rw [pieces_append (ne_lineFeed_of_mem_encode feed) ih]
        simp [feed]

theorem toList_loop (bytes : ByteArray) (i : Nat) (read : List UInt8) :
    ByteArray.toList.loop bytes i read = read.reverse ++ bytes.data.toList.drop i := by
  fun_induction ByteArray.toList.loop bytes i read with
  | case1 i read more ih =>
      have bound : i < bytes.data.toList.length := by simpa using more
      rw [ih, List.drop_eq_getElem_cons bound]
      simp [ByteArray.get!, more]
  | case2 i read ended =>
      rw [List.drop_eq_nil_of_le (by simpa using ended)]
      simp

theorem toList_toUTF8 (text : String) :
    text.toUTF8.toList = text.toList.flatMap String.utf8EncodeChar := by
  have bytes : text.toUTF8 = (text.toList.flatMap String.utf8EncodeChar).toByteArray :=
    (congrArg String.toByteArray text.ofList_toList).symm
  rw [bytes, ByteArray.toList, toList_loop, List.data_toByteArray]
  simp

theorem fromUTF8?_encode (line : List Char) :
    String.fromUTF8? ⟨(line.flatMap String.utf8EncodeChar).toArray⟩ =
      some (String.ofList line) := by
  have bytes : ByteArray.mk (line.flatMap String.utf8EncodeChar).toArray =
      (String.ofList line).toByteArray :=
    ByteArray.ext List.data_toByteArray.symm
  rw [bytes, String.fromUTF8?, dif_pos (String.ofList line).isValidUTF8]
  rfl

/-- Nothing is left of some characters after trimming. -/
abbrev AllBlank (chars : List Char) : Prop :=
  trimChars chars = []

theorem trim_ofList_eq_empty_iff {chars : List Char} :
    trim (String.ofList chars) = "" ↔ AllBlank chars := by
  rw [trim, String.toList_ofList, ← String.toList_inj, String.toList_ofList]
  rfl

end Text

/-! ## Lines and rows -/

namespace Row

open Text (AllBlank)

variable [Formats]

/-- A line is the text of a JSON object, which is the row. -/
def Reads (line : List Char) (row : Row) : Prop :=
  ∃ members, Formats.readJson (Text.trim (String.ofList line)) = .ok (.object members) ∧
    row = ofFields (members.map fun (name, json) => (name, Value.ofJson json))

/-- The fault of a line that is not blank and is not the text of a JSON object. -/
inductive Misreads (number : Nat) (line : List Char) : LineFault → Prop
  | notJson {message : String} : ¬ AllBlank line →
      Formats.readJson (Text.trim (String.ofList line)) = .error message →
      Misreads number line (.notJson number message)
  | notARow {json : Json} : ¬ AllBlank line →
      Formats.readJson (Text.trim (String.ofList line)) = .ok json →
      (∀ members, json ≠ .object members) →
      Misreads number line (.notARow number (.argument (.notAnObject json)))

section
variable {number : Nat} {line : List Char}

theorem ofJson_cases (json : Json) :
    (∃ members, json = .object members ∧ ofJson json =
        .ok (ofFields (members.map fun (name, json) => (name, Value.ofJson json)))) ∨
      ((∀ members, json ≠ .object members) ∧
        ofJson json = .error (.argument (.notAnObject json))) := by
  cases json with
  | object members => exact .inl ⟨members, rfl, rfl⟩
  | _ => exact .inr ⟨nofun, rfl⟩

theorem ofLine_cases (number : Nat) (line : List Char) :
    (AllBlank line ∧ ofLine number (line.flatMap String.utf8EncodeChar) = .ok none) ∨
    (¬ AllBlank line ∧ ∃ row, Reads line row ∧
      ofLine number (line.flatMap String.utf8EncodeChar) = .ok (some row)) ∨
    ∃ fault, Misreads number line fault ∧
      ofLine number (line.flatMap String.utf8EncodeChar) = .error fault := by
  rw [ofLine, Text.fromUTF8?_encode]
  dsimp only
  by_cases blank : AllBlank line
  · exact .inl ⟨blank, if_pos (Text.trim_ofList_eq_empty_iff.mpr blank)⟩
  · rw [if_neg (mt Text.trim_ofList_eq_empty_iff.mp blank)]
    cases read : Formats.readJson (Text.trim (String.ofList line)) with
    | error message => exact .inr (.inr ⟨_, .notJson blank read, rfl⟩)
    | ok json =>
        rcases ofJson_cases json with ⟨members, rfl, made⟩ | ⟨other, failed⟩
        · exact .inr (.inl ⟨blank, _, ⟨members, read, rfl⟩, by simp only [made]⟩)
        · exact .inr (.inr ⟨_, .notARow blank read other, by simp only [failed]⟩)

theorem Reads.unique {row row' : Row} (one : Reads line row) (two : Reads line row') :
    row = row' := by
  obtain ⟨members, read, rfl⟩ := one
  obtain ⟨members', read', rfl⟩ := two
  cases read.symm.trans read'
  rfl

theorem Misreads.unique {fault fault' : LineFault} (one : Misreads number line fault)
    (two : Misreads number line fault') : fault = fault' := by
  cases one with
  | notJson _ refused =>
      cases two with
      | notJson _ refused' =>
          cases refused.symm.trans refused'
          rfl
      | notARow _ read => cases refused.symm.trans read
  | notARow _ read =>
      cases two with
      | notJson _ refused => cases refused.symm.trans read
      | notARow _ read' =>
          cases read.symm.trans read'
          rfl

theorem Misreads.not_blank {fault : LineFault} (misreads : Misreads number line fault) :
    ¬ AllBlank line := by
  cases misreads <;> assumption

theorem Misreads.not_reads {fault : LineFault} {row : Row} (misreads : Misreads number line fault) :
    ¬ Reads line row := by
  rintro ⟨members, read, -⟩
  cases misreads with
  | notJson _ refused => cases read.symm.trans refused
  | notARow _ read' other =>
      cases read.symm.trans read'
      exact other members rfl

end

/-! ## All lines -/

section
variable {number : Nat} {line : List UInt8} {rest : List (List UInt8)} {row : Row}
  {fault : LineFault}

theorem ofLines_cons_none (read : ofLine number line = .ok none) :
    ofLines number (line :: rest) = ofLines (number + 1) rest := by
  rw [ofLines, read]
  cases ofLines (number + 1) rest <;> rfl

theorem ofLines_cons_some (read : ofLine number line = .ok (some row)) :
    ofLines number (line :: rest) = (ofLines (number + 1) rest).map (row :: ·) := by
  rw [ofLines, read]
  cases ofLines (number + 1) rest <;> rfl

theorem ofLines_cons_error (read : ofLine number line = .error fault) :
    ofLines number (line :: rest) = .error fault := by
  rw [ofLines, read]
  rfl

end

section
variable {number : Nat} {lines : List (List Char)} {rows : List Row} {fault : LineFault}

theorem ofLines_eq_ok_iff :
    ofLines number (lines.map (List.flatMap String.utf8EncodeChar)) = .ok rows ↔
      List.Forall₂ Reads (lines.filter fun line => ¬ AllBlank line) rows := by
  induction lines generalizing number rows with
  | nil =>
      rw [List.map_nil, List.filter_nil, List.forall₂_nil_left_iff, ofLines]
      exact ⟨fun same => (Except.ok.inj same).symm, fun none => by rw [none]⟩
  | cons line lines ih =>
      rw [List.map_cons]
      rcases ofLine_cases number line with
        ⟨blank, read⟩ | ⟨visible, row, reads, read⟩ | ⟨fault, misreads, read⟩
      · rw [ofLines_cons_none read, ih, List.filter_cons_of_neg (by simpa using blank)]
      · rw [ofLines_cons_some read, List.filter_cons_of_pos (by simpa using visible),
          List.forall₂_cons_left_iff]
        cases later : ofLines (number + 1) (lines.map (List.flatMap String.utf8EncodeChar)) with
        | error fault =>
            apply iff_of_false nofun
            rintro ⟨_, others, -, all, -⟩
            cases later.symm.trans (ih.mpr all)
        | ok others =>
            constructor
            · rintro ⟨⟩
              exact ⟨row, others, reads, ih.mp later, rfl⟩
            · rintro ⟨row', others', reads', all, rfl⟩
              cases later.symm.trans (ih.mpr all)
              rw [reads.unique reads']
              rfl
      · rw [ofLines_cons_error read]
        apply iff_of_false nofun
        rw [List.filter_cons_of_pos (by simpa using misreads.not_blank), List.forall₂_cons_left_iff]
        rintro ⟨row, _, reads, -⟩
        exact misreads.not_reads reads

/-- The fault of the first line that neither is blank nor holds a row. The first of all lines has a
given number. -/
def FirstMisread (number : Nat) (lines : List (List Char)) (fault : LineFault) : Prop :=
  ∃ before line after, lines = before ++ line :: after ∧
    (∀ earlier ∈ before, AllBlank earlier ∨ ∃ row, Reads earlier row) ∧
    Misreads (number + before.length) line fault

theorem firstMisread_cons_iff {line : List Char} : FirstMisread number (line :: lines) fault ↔
    Misreads number line fault ∨
      (AllBlank line ∨ ∃ row, Reads line row) ∧ FirstMisread (number + 1) lines fault := by
  constructor
  · rintro ⟨_ | ⟨first, before⟩, bad, after, whole, passed, misreads⟩
    · obtain ⟨rfl, -⟩ := List.cons.inj whole
      exact .inl misreads
    · obtain ⟨rfl, rfl⟩ := List.cons.inj whole
      obtain ⟨here, later⟩ := List.forall_mem_cons.mp passed
      refine .inr ⟨here, before, bad, after, rfl, later, ?_⟩
      rwa [List.length_cons, Nat.add_comm before.length, ← Nat.add_assoc] at misreads
  · rintro (misreads | ⟨here, before, bad, after, rfl, later, misreads⟩)
    · exact ⟨[], line, lines, rfl, by simp, misreads⟩
    · refine ⟨line :: before, bad, after, rfl, List.forall_mem_cons.mpr ⟨here, later⟩, ?_⟩
      rwa [List.length_cons, Nat.add_comm before.length, ← Nat.add_assoc]

theorem ofLines_eq_error_iff :
    ofLines number (lines.map (List.flatMap String.utf8EncodeChar)) = .error fault ↔
      FirstMisread number lines fault := by
  induction lines generalizing number with
  | nil =>
      rw [List.map_nil, ofLines]
      apply iff_of_false nofun
      rintro ⟨before, line, after, whole, -⟩
      cases before <;> cases whole
  | cons line lines ih =>
      rw [List.map_cons, firstMisread_cons_iff]
      rcases ofLine_cases number line with
        ⟨blank, read⟩ | ⟨visible, row, reads, read⟩ | ⟨first, misreads, read⟩
      · rw [ofLines_cons_none read, ih, and_iff_right (.inl blank), or_iff_right]
        exact fun misreads => misreads.not_blank blank
      · rw [ofLines_cons_some read, ← ih, and_iff_right (.inr ⟨row, reads⟩), or_iff_right]
        · cases ofLines (number + 1) (lines.map (List.flatMap String.utf8EncodeChar)) <;>
            simp [Except.map]
        · exact fun misreads => misreads.not_reads reads
      · rw [ofLines_cons_error read, or_iff_left]
        · exact ⟨fun same => Except.error.inj same ▸ misreads,
            fun again => congrArg _ (misreads.unique again)⟩
        · rintro ⟨blank | ⟨row, reads⟩, -⟩
          · exact misreads.not_blank blank
          · exact misreads.not_reads reads

/-! ## A text as an input -/

theorem ofInput_toUTF8 (text : String) : ofInput text.toUTF8 =
    ofLines 1 ((Text.lines text).map (List.flatMap String.utf8EncodeChar)) := by
  rw [ofInput, Text.toList_toUTF8, Text.pieces_encode, Text.lines]

theorem ofInput_eq_ok_iff {text : String} : ofInput text.toUTF8 = .ok rows ↔
    List.Forall₂ Reads ((Text.lines text).filter fun line => ¬ AllBlank line) rows := by
  rw [ofInput_toUTF8, ofLines_eq_ok_iff]

theorem ofInput_eq_error_iff {text : String} : ofInput text.toUTF8 = .error fault ↔
    FirstMisread 1 (Text.lines text) fault := by
  rw [ofInput_toUTF8, ofLines_eq_error_iff]

end

end Row

end RowQuery
