import RowQuery.Formats.Standard
import RowQuery.Proofs.Binary64.Nonfinite
import RowQuery.Proofs.FloatBits
import RowQuery.Proofs.Json.Lines
import RowQuery.Proofs.Row
import RowQuery.Proofs.Timestamp

/-!
# Rows as JSON and back

An object has its members in the order of their names. The order by code points is that by the bytes
of UTF-8. So a row comes back with its fields in that order, and each value as what JSON can say of
it; from then on it stays as it is (`ofJson_toJson`).
-/

namespace RowQuery

/-! ## The order of bytes -/

namespace Text

/-- In UTF-8 a lower code comes before a higher one, whatever follows them. -/
theorem encode_lt {c d : Char} (less : c < d) (first second : List UInt8) :
    String.utf8EncodeChar c ++ first < String.utf8EncodeChar d ++ second := by
  have less : c.val.toNat < d.val.toNat := less
  have bound : d.val.toNat < 0x110000 := by
    rcases d.valid with low | high <;> omega
  have digits (n : Nat) : n / 4096 = n / 64 / 64 ∧ n / 262144 = n / 64 / 64 / 64 := by
    rw [Nat.div_div_eq_div_mul, Nat.div_div_eq_div_mul]
    exact ⟨rfl, rfl⟩
  simp only [String.utf8EncodeChar, digits]
  -- A longer encoding starts with a greater byte; two of one length compare digit by digit.
  split_ifs <;>
    simp only [List.cons_append, List.nil_append, List.cons_lt_cons_iff, UInt8.lt_iff_toNat_lt,
      ← UInt8.toNat_inj, UInt8.toNat_ofNat'] <;>
    omega

theorem flatMap_encode_lt {left right : List Char} (less : left < right) :
    left.flatMap String.utf8EncodeChar < right.flatMap String.utf8EncodeChar := by
  induction less with
  | @nil c rest =>
      obtain ⟨byte, bytes, encoded⟩ := List.exists_cons_of_ne_nil String.utf8EncodeChar_ne_nil
      rw [List.flatMap_cons, encoded]
      exact .nil
  | @cons c left right less ih => exact List.append_left_lt ih
  | @rel c left d right less => exact encode_lt less _ _

theorem toUTF8_lt {left right : String} (less : compare left right = .lt) :
    left.toUTF8.toList < right.toUTF8.toList := by
  rw [toList_toUTF8, toList_toUTF8]
  exact flatMap_encode_lt (compareOfLessAndEq_eq_lt.mp less : left < right)

end Text

/-! ## Objects -/

namespace Json

/-- Members in the order of their names, no two of one name. -/
def Sorted (members : List (String × Json)) : Prop :=
  members.Pairwise fun left right => compare left.1 right.1 = .lt

section
variable {name : String} {value : Json} {members : List (String × Json)}

theorem insert_perm (new : name ∉ members.map Prod.fst) :
    (insert name value members).Perm ((name, value) :: members) := by
  induction members with
  | nil => rfl
  | cons member rest ih =>
      rw [List.map_cons, List.mem_cons, not_or] at new
      unfold insert
      cases order : compare name member.1 with
      | lt => rfl
      | eq => exact (new.1 (Std.LawfulEqOrd.eq_of_compare order)).elim
      | gt => exact ((ih new.2).cons member).trans (.swap _ _ _)

theorem sorted_insert (new : name ∉ members.map Prod.fst) (sorted : Sorted members) :
    Sorted (insert name value members) := by
  induction members with
  | nil => exact List.pairwise_singleton _ _
  | cons member rest ih =>
      obtain ⟨first, later⟩ := List.pairwise_cons.mp sorted
      rw [List.map_cons, List.mem_cons, not_or] at new
      unfold insert
      cases order : compare name member.1 with
      | lt =>
          refine List.pairwise_cons.mpr ⟨?_, sorted⟩
          intro other found
          rcases List.mem_cons.mp found with rfl | there
          · exact order
          · exact Std.TransCmp.lt_trans order (first other there)
      | eq => exact (new.1 (Std.LawfulEqOrd.eq_of_compare order)).elim
      | gt =>
          refine List.pairwise_cons.mpr ⟨?_, ih new.2 later⟩
          intro other found
          rcases List.mem_cons.mp ((insert_perm new.2).mem_iff.mp found) with rfl | there
          · exact Std.OrientedCmp.gt_iff_lt.mp order
          · exact first other there

theorem insert_of_last (last : ∀ member ∈ members, compare member.1 name = .lt) :
    insert name value members = members ++ [(name, value)] := by
  induction members with
  | nil => rfl
  | cons member rest ih =>
      obtain ⟨here, later⟩ := List.forall_mem_cons.mp last
      rw [insert, Std.OrientedCmp.gt_iff_lt.mpr here, List.cons_append, ih later]

end

theorem Sorted.nodup {members : List (String × Json)} (sorted : Sorted members) :
    (members.map Prod.fst).Nodup := by
  refine List.pairwise_map.mpr (sorted.imp ?_)
  intro left right less same
  rw [same, Std.ReflOrd.compare_self] at less
  cases less

theorem foldl_insert {before members : List (String × Json)} (sorted : Sorted before)
    (distinct : ((before ++ members).map Prod.fst).Nodup) :
    let all := members.foldl (fun sorted member => insert member.1 member.2 sorted) before
    Sorted all ∧ all.Perm (before ++ members) := by
  induction members generalizing before with
  | nil => exact ⟨sorted, by rw [List.append_nil]; rfl⟩
  | cons member rest ih =>
      have new : member.1 ∉ before.map Prod.fst := by
        rw [List.map_append, List.map_cons] at distinct
        intro known
        exact (List.nodup_append.mp distinct).2.2 _ known _ List.mem_cons_self rfl
      have grown : (insert member.1 member.2 before ++ rest).Perm (before ++ member :: rest) :=
        ((insert_perm new).append_right rest).trans List.perm_middle.symm
      obtain ⟨sorted, all⟩ :=
        ih (sorted_insert new sorted) ((grown.map Prod.fst).nodup_iff.mpr distinct)
      exact ⟨sorted, all.trans grown⟩

theorem foldl_insert_of_sorted {before members : List (String × Json)}
    (sorted : Sorted (before ++ members)) :
    members.foldl (fun sorted member => insert member.1 member.2 sorted) before =
      before ++ members := by
  induction members generalizing before with
  | nil => exact (List.append_nil before).symm
  | cons member rest ih =>
      have last : ∀ other ∈ before, compare other.1 member.1 = .lt := fun other found =>
        (List.pairwise_append.mp sorted).2.2 other found member List.mem_cons_self
      rw [List.append_cons] at sorted ⊢
      rw [List.foldl_cons, insert_of_last last, ih sorted]

end Json

/-! ## Values -/

namespace Value

/-- What becomes of a value as JSON and back: what is no finite number is NULL, an instant is its
text by RFC 3339, and all else is what it was. -/
inductive Survives : Value → Value → Prop
  | null : Survives .null .null
  | integer (n : Int64) : Survives (.integer n) (.integer n)
  | finite {x : FloatBits} (number : x.toFloat.isNaN = false) (finite : x.toFloat.isInf = false) :
      Survives (.float x) (.float x)
  | nan {x : FloatBits} (nan : x.toFloat.isNaN = true) : Survives (.float x) .null
  | infinite {x : FloatBits} (infinite : x.toFloat.isInf = true) : Survives (.float x) .null
  | text (s : String) : Survives (.text s) (.text s)
  | boolean (b : Bool) : Survives (.boolean b) (.boolean b)
  | timestamp {t : Timestamp} {s : String} (written : t.Rfc3339 s) :
      Survives (.timestamp t) (.text s)

variable [Formats]

theorem ofJson_integer (n : Int64) : ofJson (.integer n.toInt) = .integer n := by
  rw [ofJson, Integer64.ofInt?_eq_some_iff.mpr rfl]

theorem survives (writes : ∀ t : Timestamp, t.Rfc3339 (Formats.instantText t)) (value : Value) :
    value.Survives (ofJson value.toJson) := by
  cases value with
  | null => exact .null
  | integer n =>
      rw [toJson, ofJson_integer]
      exact .integer n
  | float x =>
      cases finite : x.toFloat.isFinite with
      | true =>
          obtain ⟨number, bounded⟩ := Binary64.isFinite_iff.mp finite
          rw [toJson, if_pos finite, ofJson, FloatBits.ofFloat_toFloat number]
          exact .finite number bounded
      | false =>
          rw [toJson, if_neg (by rw [finite]; decide)]
          rcases Binary64.isFinite_eq_false_iff.mp finite with nan | infinite
          · exact .nan nan
          · exact .infinite infinite
  | text s => exact .text s
  | boolean b => exact .boolean b
  | timestamp t => exact .timestamp (writes t)

theorem toJson_ofJson_toJson (value : Value) : (ofJson value.toJson).toJson = value.toJson := by
  cases value with
  | integer n => rw [toJson, ofJson_integer, toJson]
  | float x => by_cases finite : x.toFloat.isFinite <;> simp [toJson, ofJson, finite]
  | null | text s | boolean b | timestamp t => rfl

/-- A value as JSON has it: what is no finite number is null, an instant is written as a string. -/
inductive ShownAs : Value → Json → Prop
  | null : ShownAs .null .null
  | integer (n : Int64) : ShownAs (.integer n) (.integer n.toInt)
  | finite {x : FloatBits} (number : x.toFloat.isNaN = false) (finite : x.toFloat.isInf = false) :
      ShownAs (.float x) (.float x.toFloat)
  | nan {x : FloatBits} (nan : x.toFloat.isNaN = true) : ShownAs (.float x) .null
  | infinite {x : FloatBits} (infinite : x.toFloat.isInf = true) : ShownAs (.float x) .null
  | text (s : String) : ShownAs (.text s) (.string s)
  | boolean (b : Bool) : ShownAs (.boolean b) (.boolean b)
  | timestamp (t : Timestamp) : ShownAs (.timestamp t) (.string (Formats.instantText t))

theorem shownAs_toJson (value : Value) : value.ShownAs value.toJson := by
  cases value with
  | null => exact .null
  | integer n => exact .integer n
  | float x =>
      cases finite : x.toFloat.isFinite with
      | true =>
          rw [toJson, if_pos finite]
          exact .finite (Binary64.isFinite_iff.mp finite).1 (Binary64.isFinite_iff.mp finite).2
      | false =>
          rw [toJson, if_neg (by rw [finite]; decide)]
          exact (Binary64.isFinite_eq_false_iff.mp finite).elim .nan .infinite
  | text s => exact .text s
  | boolean b => exact .boolean b
  | timestamp t => exact .timestamp t

end Value

/-! ## Rows -/

namespace Row

variable [Formats] {row : Row} {members : List (String × Json)}

theorem toJson_eq (row : Row) : ∃ members, row.toJson = .object members ∧ Json.Sorted members ∧
    members.Perm (row.fields.map fun field => (field.1, field.2.toJson)) := by
  have distinct : ((row.fields.map fun field => (field.1, field.2.toJson)).map Prod.fst).Nodup := by
    rw [List.map_map]
    exact row.distinct
  exact ⟨_, rfl, Json.foldl_insert .nil distinct⟩

/-- A row as a JSON object: a member for each field, in the order of the bytes of the names. -/
def ShownAs (row : Row) (json : Json) : Prop :=
  ∃ members shown, json = .object members ∧ members.Perm shown ∧
    members.Pairwise (fun left right => left.1.toUTF8.toList < right.1.toUTF8.toList) ∧
    List.Forall₂ (fun field member => member.1 = field.1 ∧ field.2.ShownAs member.2)
      row.fields shown

theorem shownAs_toJson (row : Row) : row.ShownAs row.toJson := by
  obtain ⟨members, object, sorted, perm⟩ := row.toJson_eq
  refine ⟨members, _, object, perm, sorted.imp Text.toUTF8_lt, ?_⟩
  rw [List.forall₂_map_right_iff, List.forall₂_same]
  exact fun field _ => ⟨rfl, field.2.shownAs_toJson⟩

theorem ofJson_of_sorted (sorted : Json.Sorted members) :
    ∃ back, ofJson (.object members) = .ok back ∧
      back.fields = members.map fun member => (member.1, Value.ofJson member.2) := by
  have distinct :
      ((members.map fun member => (member.1, Value.ofJson member.2)).map Prod.fst).Nodup := by
    rw [List.map_map]
    exact sorted.nodup
  exact ⟨_, rfl, fields_setAll distinct⟩

theorem toJson_of_fields {back : Row} (sorted : Json.Sorted members)
    (fields : back.fields = members.map fun member => (member.1, Value.ofJson member.2))
    (written : ∀ member ∈ members, ∃ value : Value, member.2 = value.toJson) :
    back.toJson = .object members := by
  have kept : back.fields.map (fun field => (field.1, field.2.toJson)) = members := by
    rw [fields, List.map_map]
    refine (List.map_congr_left ?_).trans (List.map_id members)
    intro member found
    obtain ⟨value, same⟩ := written member found
    have came : (Value.ofJson member.2).toJson = member.2 := by
      rw [same, value.toJson_ofJson_toJson]
    exact Prod.ext rfl came
  refine (congrArg Json.ofMembers kept).trans ?_
  exact congrArg Json.object (Json.foldl_insert_of_sorted sorted)

section
variable {back : Row}
  (fields : back.fields.Perm (row.fields.map fun field => (field.1, Value.ofJson field.2.toJson)))
include fields

theorem names_perm_of_fields : back.names.Perm row.names := by
  have names := fields.map Prod.fst
  rwa [List.map_map] at names

theorem survives_of_fields (writes : ∀ t : Timestamp, t.Rfc3339 (Formats.instantText t))
    (name : String) : Option.Rel Value.Survives (row.get? name) (back.get? name) := by
  have names := names_perm_of_fields fields
  cases found : row.get? name with
  | none =>
      have missing : back.get? name = none := by
        rw [get?_eq_none_iff, names.mem_iff, ← get?_eq_none_iff, found]
      rw [missing]
      exact .none
  | some value =>
      have here : (name, value) ∈ row.fields := (get?_eq_some_iff row name value).mp found
      have there : back.get? name = some (Value.ofJson value.toJson) := by
        rw [get?_eq_some_iff, fields.mem_iff]
        exact List.mem_map.mpr ⟨_, here, rfl⟩
      rw [there]
      exact .some (value.survives writes)

end

/-- A row comes back from JSON with the same names, now in the order of their bytes, and with what is
left of each value; the second time nothing changes. -/
theorem ofJson_toJson (writes : ∀ t : Timestamp, t.Rfc3339 (Formats.instantText t)) (row : Row) :
    ∃ back, ofJson row.toJson = .ok back ∧ back.names.Perm row.names ∧
      back.names.Pairwise (fun left right => left.toUTF8.toList < right.toUTF8.toList) ∧
      (∀ name, Option.Rel Value.Survives (row.get? name) (back.get? name)) ∧
      ofJson back.toJson = .ok back := by
  obtain ⟨members, object, sorted, all⟩ := row.toJson_eq
  obtain ⟨back, came, fields⟩ := ofJson_of_sorted sorted
  have perm : back.fields.Perm
      (row.fields.map fun field => (field.1, Value.ofJson field.2.toJson)) := by
    have decoded := all.map fun member => (member.1, Value.ofJson member.2)
    rwa [← fields, List.map_map] at decoded
  have ordered : back.names.Pairwise
      fun left right => left.toUTF8.toList < right.toUTF8.toList := by
    rw [Row.names, fields, List.map_map, List.pairwise_map]
    exact sorted.imp Text.toUTF8_lt
  have again : back.toJson = .object members := by
    refine toJson_of_fields sorted fields ?_
    intro member found
    obtain ⟨field, -, rfl⟩ := List.mem_map.mp (all.mem_iff.mp found)
    exact ⟨field.2, rfl⟩
  exact ⟨back, object ▸ came, names_perm_of_fields perm, ordered, survives_of_fields perm writes,
    again ▸ came⟩

end Row

open scoped Formats in
/-- An integral float, a float that is no number, and an instant half a second before 1970. -/
theorem Row.ofJson_toJson_reading :
    let before : Timestamp := ⟨-1, 500000000, by decide⟩
    let row := Row.ofFields [("y", .float 2), ("x", .float ⟨0x7ff8000000000001⟩),
      ("at", .timestamp before)]
    ∃ back, Row.ofJson row.toJson = .ok back ∧ Row.ofJson back.toJson = .ok back ∧
      Option.Rel Value.Survives (row.get? "at") (back.get? "at") ∧
      back.fields = [("at", .text "1969-12-31T23:59:59.500+00:00"), ("x", .null),
        ("y", .float 2)] := by
  intro before row
  have writes (t : Timestamp) : t.Rfc3339 (Formats.instantText t) := t.rfc3339_text
  obtain ⟨back, came, -, -, survives, again⟩ := Row.ofJson_toJson writes row
  have fields : (Row.ofJson row.toJson).toOption.map Row.fields =
      some [("at", .text "1969-12-31T23:59:59.500+00:00"), ("x", .null), ("y", .float 2)] := by
    decide +kernel
  rw [came] at fields
  exact ⟨back, came, again, survives "at", Option.some.inj fields⟩

/-! ## Result sets -/

/-- A result set as a JSON array: an object for each row. -/
def ResultSet.ShownAs [Formats] (result : ResultSet) (json : Json) : Prop :=
  ∃ items, json = .array items ∧ List.Forall₂ Row.ShownAs result.rows items

theorem ResultSet.shownAs_toJson [Formats] (result : ResultSet) : result.ShownAs result.toJson := by
  refine ⟨_, rfl, ?_⟩
  rw [List.forall₂_map_right_iff, List.forall₂_same]
  exact fun row _ => row.shownAs_toJson

end RowQuery
