import RowQuery.Row

/-!
# Many fields set one after the other

The names of the row come in the order of their first appearance, and what is set last counts.
-/

namespace RowQuery

/-! ## First appearances -/

theorem eraseDups_of_nodup {ids : List String} (distinct : ids.Nodup) : ids.eraseDups = ids := by
  induction ids with
  | nil => rfl
  | cons id ids ih =>
      obtain ⟨new, distinct⟩ := List.nodup_cons.mp distinct
      have kept : ids.filter (fun other => !other == id) = ids := by
        rw [List.filter_eq_self]
        intro other member
        simp only [Bool.not_eq_true', beq_eq_false_iff_ne]
        rintro rfl
        exact new member
      rw [List.eraseDups_cons, kept, ih distinct]

namespace Row

/-! ## Fields -/

variable {row : Row} {written : List Field} {name : String}

/-- A row after some fields are set in order. -/
def setAll (row : Row) (written : List Field) : Row :=
  written.foldl (fun row field => row.set field.1 field.2) row

theorem setAll_cons (row : Row) (field : Field) (written : List Field) :
    row.setAll (field :: written) = (row.set field.1 field.2).setAll written :=
  rfl

theorem get?_setAll_of_not_mem (other : name ∉ written.map Prod.fst) :
    (row.setAll written).get? name = row.get? name := by
  induction written generalizing row with
  | nil => rfl
  | cons field written ih =>
      simp only [List.map_cons, List.mem_cons, not_or] at other
      obtain ⟨here, later⟩ := other
      have differs : ¬ field.1 = name := fun same => here same.symm
      rw [setAll_cons, ih later, get?_set, if_neg differs]

/-- A field that is only ever set to one value has that value. -/
theorem get?_setAll_of_mem {value : Value} (member : name ∈ written.map Prod.fst)
    (only : ∀ field ∈ written, field.1 = name → field.2 = value) :
    (row.setAll written).get? name = some value := by
  induction written generalizing row with
  | nil => cases member
  | cons field written ih =>
      rw [setAll_cons]
      by_cases later : name ∈ written.map Prod.fst
      · exact ih later fun field member => only field (List.mem_cons_of_mem _ member)
      · have here : field.1 = name := by
          rw [List.map_cons, List.mem_cons] at member
          exact (member.resolve_right later).symm
        rw [get?_setAll_of_not_mem later, get?_set, if_pos here, only field List.mem_cons_self here]

/-- Of fields with different names the one of a name counts, if there is one. -/
theorem get?_setAll_of_nodup (distinct : (written.map Prod.fst).Nodup) (name : String) :
    (row.setAll written).get? name = (written.lookup name).or (row.get? name) := by
  induction written generalizing row with
  | nil => rfl
  | cons field written ih =>
      obtain ⟨new, distinct⟩ := List.nodup_cons.mp distinct
      rw [setAll_cons, ih distinct, get?_set]
      by_cases here : field.1 = name
      · have later : written.lookup name = none := by
          rw [List.lookup_eq_none_iff]
          intro other member
          rw [bne_iff_ne]
          rintro rfl
          exact new (here ▸ List.mem_map_of_mem member)
        have first : (field :: written).lookup name = some field.2 := by
          rw [← here]
          exact List.lookup_cons_self
        rw [if_pos here, later, first]
        rfl
      · have skip : (field :: written).lookup name = written.lookup name := by
          have other : (name == field.1) = false := beq_false_of_ne (Ne.symm here)
          rw [List.lookup_cons, other]
        rw [if_neg here, skip]

/-- New names come after those of the row, in the order of their first appearance. -/
theorem names_setAll (row : Row) (written : List Field) :
    (row.setAll written).names = (row.names ++ written.map Prod.fst).eraseDups := by
  induction written generalizing row with
  | nil =>
      rw [List.map_nil, List.append_nil]
      exact (eraseDups_of_nodup row.distinct).symm
  | cons field written ih =>
      rw [setAll_cons, ih, names_set, List.map_cons]
      by_cases known : field.1 ∈ row.names
      · rw [if_pos known, List.eraseDups_append, List.eraseDups_append]
        simp [List.removeAll, known]
      · rw [if_neg known, List.append_assoc, List.singleton_append]

theorem fields_set_of_not_mem (value : Value) (new : name ∉ row.names) :
    (row.set name value).fields = row.fields ++ [(name, value)] := by
  have append (fields : List Field) (new : name ∉ fields.map Prod.fst) :
      setFields name value fields = fields ++ [(name, value)] := by
    induction fields with
    | nil => rfl
    | cons field rest ih =>
        simp only [List.map_cons, List.mem_cons, not_or] at new
        obtain ⟨here, later⟩ := new
        have differs : ¬ field.1 = name := fun same => here same.symm
        rw [setFields, if_neg differs, ih later, List.cons_append]
  exact append row.fields new

/-- Fields with new names are appended. -/
theorem fields_setAll (distinct : (row.names ++ written.map Prod.fst).Nodup) :
    (row.setAll written).fields = row.fields ++ written := by
  induction written generalizing row with
  | nil => exact (List.append_nil _).symm
  | cons field written ih =>
      rw [List.map_cons] at distinct
      have new : field.1 ∉ row.names := by
        intro known
        exact (List.nodup_append.mp distinct).2.2 _ known _ List.mem_cons_self rfl
      have names : (row.set field.1 field.2).names = row.names ++ [field.1] := by
        rw [names_set, if_neg new]
      rw [setAll_cons, ih, fields_set_of_not_mem field.2 new, List.append_assoc,
        List.singleton_append]
      rwa [names, List.append_assoc, List.singleton_append]

/-! ## Look-ups -/

theorem get?_eq_none_iff (row : Row) (name : String) :
    row.get? name = none ↔ name ∉ row.names := by
  rw [get?, Option.map_eq_none_iff, List.find?_eq_none, names, List.mem_map]
  constructor
  · rintro none ⟨field, member, rfl⟩
    exact none field member (beq_self_eq_true _)
  · intro absent field member same
    exact absent ⟨field, member, by simpa using same⟩

theorem get?_eq_some_iff (row : Row) (name : String) (value : Value) :
    row.get? name = some value ↔ (name, value) ∈ row.fields := by
  rw [get?, Option.map_eq_some_iff]
  constructor
  · rintro ⟨field, found, rfl⟩
    obtain rfl : field.1 = name := by simpa using List.find?_some found
    exact List.mem_of_find?_eq_some found
  · have first (fields : List Field) (distinct : (fields.map Prod.fst).Nodup)
        (member : (name, value) ∈ fields) :
        fields.find? (fun field => field.1 == name) = some (name, value) := by
      induction fields with
      | nil => cases member
      | cons field rest ih =>
          obtain ⟨new, distinct⟩ := List.nodup_cons.mp distinct
          rcases List.mem_cons.mp member with rfl | later
          · simp
          · have other : ¬ field.1 = name := by
              rintro rfl
              exact new (List.mem_map.mpr ⟨_, later, rfl⟩)
            rw [List.find?_cons_of_neg (by simpa using other), ih distinct later]
    intro member
    exact ⟨(name, value), first row.fields row.distinct member, rfl⟩

/-! ## Edits -/

/-- A change of one field. -/
inductive Edit where
  | set (name : String) (value : Value)
  | remove (name : String)

namespace Edit

/-- The field that is changed. -/
def field : Edit → String
  | .set name _ => name
  | .remove name => name

def apply (row : Row) : Edit → Row
  | .set name value => row.set name value
  | .remove name => row.remove name

theorem get?_apply_of_ne (row : Row) {edit : Edit} {other : String} (apart : edit.field ≠ other) :
    (edit.apply row).get? other = row.get? other := by
  cases edit with
  | set name value => exact (get?_set row name other value).trans (if_neg apart)
  | remove name => exact (get?_remove row name other).trans (if_neg apart)

end Edit

/-- Edits leave all other fields alone. -/
theorem get?_edits (row : Row) {edits : List Edit} {other : String}
    (apart : ∀ edit ∈ edits, edit.field ≠ other) :
    (edits.foldl Edit.apply row).get? other = row.get? other := by
  induction edits generalizing row with
  | nil => rfl
  | cons edit edits ih =>
      obtain ⟨here, later⟩ := List.forall_mem_cons.mp apart
      rw [List.foldl_cons, ih (edit.apply row) later, Edit.get?_apply_of_ne row here]

end Row

end RowQuery
