import RowQuery.Grouping
import RowQuery.Proofs.Binary64.Text

/-!
# Ids of groups

The id of a row encodes the values of its grouping fields up to sameness
(`keyOf_byFields_id_iff`). One value in an id is a tag, a length and a text, so an id falls apart in
one way only; numbers have one text exactly if they stand at one place. Instants are the exception:
all those beyond 64 bits of nanoseconds have the text of the first instant of 1970, and a leap second
has the text of the second after it.
-/

namespace RowQuery

/-- The nanoseconds that an id shows of an instant. -/
def Timestamp.idNanos (t : Timestamp) : Int :=
  (t.total64?.map Int64.toInt).getD 0

namespace Value

open Binary64 (Place)
open Decimal (digitChars)

/-! ## Numbers -/

section
variable {a b : Value} {p q : Place}

theorem exactInteger?_eq_some_iff (number : a.place? = some p) {n : Int64} :
    a.exactInteger? = some n ↔ p = Place.ofInt n.toInt := by
  cases a with
  | integer m =>
      cases number
      rw [Binary64.Place.ofInt_inj, Int64.toInt_inj]
      exact Option.some_inj
  | float x =>
      cases number
      rw [exactInteger?, Option.bind_eq_some_iff]
      constructor
      · rintro ⟨k, whole, fits⟩
        rw [Integer64.ofInt?_eq_some_iff] at fits
        rw [fits]
        exact Binary64.Place.integer?_eq_some_iff.mp whole
      · intro here
        exact ⟨n.toInt, Binary64.Place.integer?_eq_some_iff.mpr here,
          Integer64.ofInt?_eq_some_iff.mpr rfl⟩
  | _ => cases number

theorem idText_of_exactInteger? {n : Int64} (number : a.place? = some p)
    (exact : a.exactInteger? = some n) : a.idText = toString n.toInt := by
  cases a with
  | integer m =>
      cases exact
      rfl
  | float x => simp only [idText, exact]
  | _ => cases number

/-- A number that is no integer of 64 bits is a float, and shown as one. -/
theorem idText_of_not_integer (number : a.place? = some p) (other : a.exactInteger? = none) :
    ∃ x, a = .float x ∧ a.idText = Binary64.text x := by
  cases a with
  | integer => cases other
  | float x =>
      refine ⟨x, rfl, ?_⟩
      simp only [idText, other]
  | _ => cases number

theorem exactInteger?_of_idText_eq {n : Int64} (number : a.place? = some p)
    (shown : a.idText = toString n.toInt) : a.exactInteger?.isSome := by
  by_contra other
  rw [Option.not_isSome_iff_eq_none] at other
  obtain ⟨x, rfl, text⟩ := idText_of_not_integer number other
  obtain ⟨k, fits, place⟩ := Binary64.place_of_text_eq_toString (text.symm.trans shown)
  cases number
  have integer : (float x).exactInteger? = some (Int64.ofInt k) :=
    (exactInteger?_eq_some_iff rfl).mpr (by rw [Integer64.toInt_ofInt fits, place])
  rw [other] at integer
  cases integer

theorem idText_eq_of_place_eq (number : a.place? = some p) (number' : b.place? = some p) :
    a.idText = b.idText := by
  have integers : a.exactInteger? = b.exactInteger? := by
    apply Option.ext
    intro n
    rw [exactInteger?_eq_some_iff number, exactInteger?_eq_some_iff number']
  cases exact : a.exactInteger? with
  | some n =>
      rw [idText_of_exactInteger? number exact,
        idText_of_exactInteger? number' (integers.symm.trans exact)]
  | none =>
      obtain ⟨x, rfl, text⟩ := idText_of_not_integer number exact
      obtain ⟨y, rfl, text'⟩ := idText_of_not_integer number' (integers.symm.trans exact)
      have nonzero : Binary64.place x ≠ Place.ofInt 0 := by
        intro zero
        have integer := (exactInteger?_eq_some_iff (a := .float x) (n := 0) rfl).mpr zero
        rw [exact] at integer
        cases integer
      have same := Option.some.inj (number.trans number'.symm)
      rw [text, text', Binary64.text, Binary64.text, Binary64.exact_of_place_eq same nonzero]

theorem place_eq_of_idText_eq (number : a.place? = some p) (number' : b.place? = some q)
    (same : a.idText = b.idText) : p = q := by
  cases exact : a.exactInteger? with
  | some n =>
      have shown := same.symm.trans (idText_of_exactInteger? number exact)
      obtain ⟨m, exact'⟩ := Option.isSome_iff_exists.mp (exactInteger?_of_idText_eq number' shown)
      rw [idText_of_exactInteger? number' exact'] at shown
      rw [(exactInteger?_eq_some_iff number).mp exact,
        (exactInteger?_eq_some_iff number').mp exact', Numeral.toString_eq_iff.mp shown]
  | none =>
      cases exact' : b.exactInteger? with
      | some m =>
          have shown := same.trans (idText_of_exactInteger? number' exact')
          have integer := exactInteger?_of_idText_eq number shown
          rw [exact] at integer
          cases integer
      | none =>
          obtain ⟨x, rfl, text⟩ := idText_of_not_integer number exact
          obtain ⟨y, rfl, text'⟩ := idText_of_not_integer number' exact'
          rw [text, text'] at same
          cases number
          cases number'
          rw [Binary64.place, Binary64.place, Binary64.exact_of_text_eq same]

end

/-! ## Values in an id -/

theorem toList_idPart (value : Value) : value.idPart.toList =
    value.kind.tag ::
      (digitChars value.idText.utf8ByteSize ++ ':' :: (value.idText.toList ++ ['|'])) := by
  simp [idPart, Nat.toList_repr, digitChars]

theorem eq_of_append_eq {s t : String} {rest rest' : List Char}
    (sized : s.utf8ByteSize = t.utf8ByteSize) (same : s.toList ++ rest = t.toList ++ rest') :
    s = t ∧ rest = rest' := by
  have whole {s t : String} {middle : List Char} (longer : t.toList = s.toList ++ middle)
      (sized : s.utf8ByteSize = t.utf8ByteSize) : middle = [] := by
    have parts : t = s ++ String.ofList middle := by
      apply String.toList_injective
      rw [longer, String.toList_append, String.toList_ofList]
    rw [parts, String.utf8ByteSize_append] at sized
    have nothing := String.utf8ByteSize_eq_zero_iff.mp
      (by omega : (String.ofList middle).utf8ByteSize = 0)
    have chars := congrArg String.toList nothing
    rwa [String.toList_ofList] at chars
  rcases List.append_eq_append_iff.mp same with ⟨middle, longer, left⟩ | ⟨middle, longer, left⟩
  · have none_left := whole longer sized
    subst none_left
    rw [List.append_nil] at longer
    exact ⟨String.toList_injective longer.symm, left⟩
  · have none_left := whole longer sized.symm
    subst none_left
    rw [List.append_nil] at longer
    exact ⟨String.toList_injective longer, left.symm⟩

theorem takeWhile_digitChars (n : Nat) (rest : List Char) :
    (digitChars n ++ ':' :: rest).takeWhile Char.isDigit = digitChars n := by
  rw [List.takeWhile_append_of_pos fun c => Numeral.isDigit_of_mem_digitChars]
  simp [Char.isDigit]

/-- The first value of an id can be told from the rest. -/
theorem idPart_append_inj {a b : Value} {rest rest' : List Char}
    (same : a.idPart.toList ++ rest = b.idPart.toList ++ rest') :
    a.kind.tag = b.kind.tag ∧ a.idText = b.idText ∧ rest = rest' := by
  rw [toList_idPart, toList_idPart] at same
  simp only [List.cons_append, List.append_assoc, List.cons.injEq] at same
  obtain ⟨tags, same⟩ := same
  have digits := congrArg (List.takeWhile Char.isDigit) same
  rw [takeWhile_digitChars, takeWhile_digitChars] at digits
  have sizes := congrArg (Numeral.digitsValue 0) digits
  rw [Numeral.digitsValue_digitChars, Numeral.digitsValue_digitChars] at sizes
  rw [digits] at same
  obtain ⟨texts, rests⟩ := eq_of_append_eq sizes (List.cons.inj (List.append_cancel_left same)).2
  exact ⟨tags, texts, (List.cons.inj rests).2⟩

theorem idPart_eq_iff {a b : Value} :
    a.idPart = b.idPart ↔ a.kind.tag = b.kind.tag ∧ a.idText = b.idText := by
  constructor
  · intro same
    have chars : a.idPart.toList ++ [] = b.idPart.toList ++ [] := by rw [same]
    obtain ⟨tags, texts, -⟩ := idPart_append_inj chars
    exact ⟨tags, texts⟩
  · rintro ⟨tags, texts⟩
    rw [idPart, idPart, tags, texts]

theorem same_of_numbers {a b : Value} {p q : Place} (number : a.place? = some p)
    (number' : b.place? = some q) : a.same b = true ↔ p = q := by
  simp [same, number, number']

theorem idText_timestamp (t : Timestamp) : (timestamp t).idText = toString t.idNanos :=
  rfl

theorem idText_text (s : String) : (text s).idText = s :=
  rfl

theorem idText_boolean (b : Bool) : (boolean b).idText = if b then "true" else "false" :=
  rfl

theorem tag_of_number {a : Value} {p : Place} (number : a.place? = some p) : a.kind.tag = 'd' := by
  cases a with
  | integer | float => rfl
  | _ => cases number

theorem idPart_eq_iff_of_numbers {a b : Value} {p q : Place} (number : a.place? = some p)
    (number' : b.place? = some q) : a.idPart = b.idPart ↔ a.same b = true := by
  have tags := (tag_of_number number).trans (tag_of_number number').symm
  rw [idPart_eq_iff, same_of_numbers number number', and_iff_right tags]
  constructor
  · exact place_eq_of_idText_eq number number'
  · rintro rfl
    exact idText_eq_of_place_eq number number'

/-- Two values are encoded alike when they are the same, or instants with the same nanoseconds. -/
theorem idPart_eq_iff_same (a b : Value) : a.idPart = b.idPart ↔
    a.same b = true ∨ ∃ s t, a = .timestamp s ∧ b = .timestamp t ∧ s.idNanos = t.idNanos := by
  cases place : a.place? with
  | some p =>
      have number : ∀ t, a ≠ .timestamp t := by
        rintro t rfl
        cases place
      cases place' : b.place? with
      | some q => simp [idPart_eq_iff_of_numbers place place', number]
      | none =>
          rw [idPart_eq_iff]
          cases a <;> cases b <;> simp_all [place?, same, kind, Kind.tag]
  | none =>
      rw [idPart_eq_iff]
      cases a with
      | integer | float => cases place
      | null => cases b <;> simp [place?, same, kind, Kind.tag, idText]
      | text s => cases b <;> simp [place?, same, kind, Kind.tag, idText_text]
      | boolean c =>
          cases b with
          | boolean d => cases c <;> cases d <;> simp [place?, same, kind, idText_boolean]
          | _ => simp [place?, same, kind, Kind.tag]
      | timestamp s =>
          cases b with
          | timestamp t =>
              simp only [idText_timestamp, Numeral.toString_eq_iff]
              simp only [kind, same, place?, decide_eq_true_eq, timestamp.injEq, true_and,
                exists_eq_left', exists_and_left]
              constructor
              · exact .inr
              · rintro (rfl | nanos)
                · rfl
                · exact nanos
          | _ => simp [place?, same, kind, Kind.tag]

end Value

namespace Timestamp

theorem idNanos_of_fits {t : Timestamp} (regular : t.nanos < 1000000000)
    (fits : Integer64.Fits t.total) : t.idNanos = t.total := by
  rw [idNanos, total64?_eq regular, Integer64.ofInt?, if_pos fits]
  exact Integer64.toInt_ofInt fits

end Timestamp

namespace Value

/-- Values that are no instants beyond 64 bits of nanoseconds, and no leap seconds. -/
def InRange (value : Value) : Prop :=
  ∀ t, value = .timestamp t → t.nanos < 1000000000 ∧ Integer64.Fits t.total

theorem idPart_eq_iff_same_of_inRange {a b : Value} (left : a.InRange) (right : b.InRange) :
    a.idPart = b.idPart ↔ a.same b = true := by
  rw [idPart_eq_iff_same]
  constructor
  · rintro (same | ⟨s, t, rfl, rfl, nanos⟩)
    · exact same
    · obtain ⟨first, fits⟩ := left s rfl
      obtain ⟨second, fits'⟩ := right t rfl
      rw [Timestamp.idNanos_of_fits first fits, Timestamp.idNanos_of_fits second fits'] at nanos
      rw [Timestamp.total_inj first second nanos]
      simp [same, place?]
  · exact .inl

end Value

namespace Grouping

/-- The value that a row is grouped by under a field. -/
def valueAt (row : Row) (field : String) : Value :=
  (row.get? field).getD .null

theorem toList_id_fieldsKey (fields : List String) (row : Row) :
    (fieldsKey fields row).id.toList =
      fields.flatMap fun field => (valueAt row field).idPart.toList := by
  rw [fieldsKey, String.toList_join, List.flatMap_map, List.flatMap_map]
  rfl

theorem id_fieldsKey_eq_iff {fields : List String} {left right : Row} :
    (fieldsKey fields left).id = (fieldsKey fields right).id ↔
      ∀ field ∈ fields, (valueAt left field).idPart = (valueAt right field).idPart := by
  rw [← String.toList_inj, toList_id_fieldsKey, toList_id_fieldsKey]
  induction fields with
  | nil => simp
  | cons field fields ih =>
      rw [List.flatMap_cons, List.flatMap_cons, List.forall_mem_cons, ← ih]
      constructor
      · intro same
        obtain ⟨tags, texts, rests⟩ := Value.idPart_append_inj same
        exact ⟨Value.idPart_eq_iff.mpr ⟨tags, texts⟩, rests⟩
      · rintro ⟨first, rests⟩
        rw [first, rests]

theorem keyOf_byFields_id_iff (fields : List String) (left right : Row)
    (inRange : ∀ row ∈ [left, right], ∀ field ∈ fields, ∀ t,
      row.get? field = some (.timestamp t) → t.nanos < 1000000000 ∧ Integer64.Fits t.total) :
    ((byFields fields).keyOf left).id = ((byFields fields).keyOf right).id ↔
      ∀ field ∈ fields,
        ((left.get? field).getD .null).same ((right.get? field).getD .null) = true := by
  have within {row : Row} (member : row ∈ [left, right]) {field : String}
      (listed : field ∈ fields) : (valueAt row field).InRange := by
    intro t here
    apply inRange row member field listed t
    rw [valueAt] at here
    cases found : row.get? field with
    | none => simp [found] at here
    | some value => simpa [found] using here
  refine Iff.trans id_fieldsKey_eq_iff (forall₂_congr fun field listed => ?_)
  exact Value.idPart_eq_iff_same_of_inRange (within (by simp) listed) (within (by simp) listed)

/-- A float and an integer of one place, an instant, and a field that neither row has. -/
theorem keyOf_byFields_id_iff_mixed :
    let noon : Timestamp := ⟨1705320000, 500, by decide⟩
    let left := Row.ofFields [("n", .float 3.0), ("at", .timestamp noon)]
    let right := Row.ofFields [("at", .timestamp noon), ("n", .integer 3)]
    ((byFields ["n", "at", "none"]).keyOf left).id =
      ((byFields ["n", "at", "none"]).keyOf right).id := by
  intro noon left right
  have same : ∀ field ∈ ["n", "at", "none"],
      ((left.get? field).getD .null).same ((right.get? field).getD .null) = true := by
    decide +kernel
  refine (keyOf_byFields_id_iff _ left right ?_).mpr same
  intro row member field listed t found
  have noon_only : t = noon := by
    simp only [List.mem_cons, List.not_mem_nil, or_false] at member listed
    rcases member with rfl | rfl <;> rcases listed with rfl | rfl | rfl <;> cases found <;> rfl
  rw [noon_only]
  decide +kernel

end Grouping

end RowQuery
