import RowQuery.Formats.Standard
import RowQuery.Proofs.Binary64.Nonfinite
import RowQuery.Proofs.Decimal.Numeral
import RowQuery.Proofs.SelectItem.Average

/-!
# Texts under coercion

Where operands are coerced, SUM and AVG give what they give without the texts that are neither
decimal numerals nor words for floats. Such a word counts: one of them, and the result is an infinity
or NaN (`gives_without_texts`).
-/

namespace RowQuery

open Numeral (IsNumeral IsFloatWord)

/-! ## Texts that are taken out -/

namespace Value

/-- Whether a value is a text with a property that it has without the blanks at its ends. -/
def trimsTo (p : List Char → Prop) [DecidablePred p] : Value → Bool
  | .text s => decide (p (Text.trimChars s.toList))
  | _ => false

theorem trimsTo_eq_of_same {p : List Char → Prop} [DecidablePred p] {a b : Value}
    (same : a.same b = true) : a.trimsTo p = b.trimsTo p := by
  cases a <;> cases b <;> simp_all [Value.same, place?, trimsTo]

theorem isSome_coerced?_text (s : String) : (Value.text s).coerced?.isSome ↔
    IsNumeral (Text.trimChars s.toList) ∨ IsFloatWord (Text.trimChars s.toList) := by
  rw [← Numeral.isSome_float?_iff]
  simp only [coerced?, Option.isSome_or, Option.isSome_map, Bool.or_eq_true]
  refine or_iff_right_of_imp fun read => ?_
  exact Numeral.isSome_float?_iff.mpr (.inl (Numeral.isNumeral_of_isSome_int64? read))

theorem coerced?_of_unreadable {value : Value}
    (unreadable : value.trimsTo (fun chars => ¬ (IsNumeral chars ∨ IsFloatWord chars)) = true) :
    value.quantity? = none ∧ value.coerced? = none := by
  cases value with
  | text s =>
      refine ⟨rfl, ?_⟩
      rw [← Option.not_isSome_iff_eq_none, isSome_coerced?_text]
      exact of_decide_eq_true unreadable
  | _ => cases unreadable

theorem trimsTo_of_wordless {value : Value} (wordless : value.trimsTo IsFloatWord = false) :
    value.trimsTo (fun chars => ¬ (IsNumeral chars ∨ IsFloatWord chars)) =
      value.trimsTo fun chars => ¬ IsNumeral chars := by
  cases value with
  | text s =>
      have no_word : ¬ IsFloatWord (Text.trimChars s.toList) := of_decide_eq_false wordless
      simp only [trimsTo, no_word, or_false]
  | _ => rfl

variable {keep : Value → Bool}

/-- Values that are the same are kept together, so it does not matter what is done first. -/
theorem firsts_filter [Hashing] (level : ∀ a b : Value, a.same b = true → keep a = keep b)
    (earlier values : List Value) : firsts (earlier.filter keep) (values.filter keep) =
      (firsts earlier values).filter keep := by
  induction values generalizing earlier with
  | nil => rfl
  | cons value values ih =>
      cases kept : keep value with
      | true =>
          have met (other : Value) :
              (keep other && other.coincides value) = other.coincides value := by
            cases one : other.coincides value with
            | true => rw [level other value (same_of_coincides one), kept, Bool.and_true]
            | false => rw [Bool.and_false]
          rw [List.filter_cons_of_pos kept, firsts, firsts, List.any_filter]
          simp only [met]
          split
          · exact ih earlier
          · rw [List.filter_cons_of_pos kept, ← ih, List.filter_append,
              List.filter_cons_of_pos kept, List.filter_nil]
      | false =>
          rw [List.filter_cons_of_neg (by simp [kept]), firsts]
          split
          · exact ih earlier
          · rw [List.filter_cons_of_neg (by simp [kept]), ← ih, List.filter_append,
              List.filter_cons_of_neg (by simp [kept]), List.filter_nil, List.append_nil]

/-- A text that comes first, or that comes later, is among the first of its kind. -/
theorem mem_firsts_of_text [Hashing] {s : String} {earlier values : List Value}
    (member : text s ∈ values) (new : text s ∉ earlier) : text s ∈ firsts earlier values := by
  have only (other : Value) (one : other.coincides (text s) = true) : other = text s :=
    eq_of_coincides rfl one
  induction values generalizing earlier with
  | nil => cases member
  | cons value values ih =>
      by_cases here : value = text s
      · subst here
        have unmet : ¬ earlier.any fun other => other.coincides (text s) := by
          rw [List.any_eq_true]
          rintro ⟨other, met, one⟩
          exact new (only other one ▸ met)
        rw [firsts, if_neg unmet]
        exact List.mem_cons_self
      · have later := (List.mem_cons.mp member).resolve_left (Ne.symm here)
        rw [firsts]
        split
        · exact ih later new
        · refine List.mem_cons_of_mem _ (ih later ?_)
          simpa [Ne.symm here] using new

end Value

/-! ## What the texts contribute -/

namespace AggregateCall

variable {call : AggregateCall} {keep : Value → Bool}

theorem passedOn_filter [Hashing] (level : ∀ a b : Value, a.same b = true → keep a = keep b)
    (values : List Value) :
    call.passedOn (values.filter keep) = (call.passedOn values).filter keep := by
  rw [passedOn, passedOn]
  split
  · exact Value.firsts_filter level [] values
  · rfl

theorem contributions_filter
    (idle : ∀ value, keep value = false →
      value.contribution call.function call.operands = .ok none) (values : List Value) :
    call.contributions (values.filter keep) = call.contributions values := by
  rw [contributions, contributions, List.filterMap_filter]
  refine List.filterMap_congr fun value _ => ?_
  split
  · rfl
  · rename_i dropped
    rw [idle value (by simpa using dropped)]
    rfl

theorem mem_passedOn_of_text [Hashing] {s : String} {values : List Value}
    (member : .text s ∈ values) : .text s ∈ call.passedOn values := by
  rw [passedOn]
  split
  · exact Value.mem_firsts_of_text member (List.not_mem_nil)
  · exact member

end AggregateCall

namespace Accumulator

variable {call : AggregateCall}

/-- What a function of numbers has gathered comes from the contributions alone. -/
theorem foldl_take_congr (numeric : call.function.isNumeric = true) {values values' : List Value}
    (same : call.contributions values = call.contributions values') :
    values.foldl (take call.operands) (.start call.function) =
      values'.foldl (take call.operands) (.start call.function) := by
  cases function : call.function with
  | sum =>
      have total (values : List Value) := foldl_take_total function values none
      exact (total values).trans (same ▸ (total values').symm)
  | avg => rw [foldl_take_average function, foldl_take_average function, same]
  | count | max | min =>
      rw [function] at numeric
      cases numeric

end Accumulator

/-! ## Infinities and NaN -/

/-- A fold that is brought into some states by an item, and stays there, has them at its end. -/
theorem foldl_of_mem {α β : Type} {p : β → Prop} {f : β → α → β} {item : α} {items : List α}
    (member : item ∈ items) (reached : ∀ state, p (f state item))
    (kept : ∀ state item, p state → p (f state item)) (state : β) : p (items.foldl f state) := by
  have stays (items : List α) (state : β) (there : p state) : p (items.foldl f state) := by
    induction items generalizing state with
    | nil => exact there
    | cons item items ih => exact ih _ (kept state item there)
  obtain ⟨before, after, rfl⟩ := List.append_of_mem member
  rw [List.foldl_append, List.foldl_cons]
  exact stays after _ (reached _)

namespace Quantity

variable {quantities : List Quantity} {x : FloatBits}

theorem isFinite_floatSum (member : .float x ∈ quantities) (special : x.toFloat.isFinite = false) :
    (floatSum quantities).isFinite = false := by
  unfold floatSum
  apply foldl_of_mem (p := fun sum : Float => sum.isFinite = false) member
  · exact fun sum => Binary64.isFinite_add (.inr special)
  · exact fun sum quantity there => Binary64.isFinite_add (.inl there)

theorem add_float (sum : Quantity) (x : FloatBits) :
    sum.add (.float x) = .float (.ofFloat (sum.toFloat + x.toFloat)) := by
  cases sum <;> rfl

theorem float_add (x : FloatBits) (quantity : Quantity) :
    (float x).add quantity = .float (.ofFloat (x.toFloat + quantity.toFloat)) := by
  cases quantity <;> rfl

theorem exists_foldl_more (member : .float x ∈ quantities) (special : x.toFloat.isFinite = false) :
    ∃ y, quantities.foldl more none = some (.float y) ∧ y.toFloat.isFinite = false := by
  refine foldl_of_mem (p := fun sum => ∃ y, sum = some (float y) ∧ y.toFloat.isFinite = false)
    member ?_ ?_ none
  · rintro (_ | sum)
    · exact ⟨x, rfl, special⟩
    · refine ⟨_, congrArg some (add_float sum x), ?_⟩
      rw [FloatBits.toFloat_ofFloat]
      exact Binary64.isFinite_add (.inr special)
  · rintro _ quantity ⟨y, rfl, there⟩
    refine ⟨_, congrArg some (float_add y quantity), ?_⟩
    rw [FloatBits.toFloat_ofFloat]
    exact Binary64.isFinite_add (.inl there)

end Quantity

theorem Value.coerced?_of_isFloatWord {s : String}
    (word : IsFloatWord (Text.trimChars s.toList)) :
    ∃ x, (Value.text s).coerced? = some (.float x) ∧ x.toFloat.isFinite = false := by
  obtain ⟨x, read, special⟩ := Numeral.float?_of_isFloatWord word
  have no_integer : Numeral.int64? (Text.trimChars s.toList) = none := by
    rw [← Option.not_isSome_iff_eq_none]
    exact fun integer => Numeral.not_isNumeral_of_isFloatWord word
      (Numeral.isNumeral_of_isSome_int64? integer)
  refine ⟨.ofFloat x, by simp [coerced?, no_integer, read], ?_⟩
  rwa [FloatBits.toFloat_ofFloat]

/-! ## SUM and AVG -/

namespace AggregateCall

variable {call : AggregateCall} {values : List Value} {x : FloatBits}

theorem gather_filter [Hashing] {keep : Value → Bool} (numeric : call.function.isNumeric = true)
    (level : ∀ a b : Value, a.same b = true → keep a = keep b)
    (idle : ∀ value, keep value = false →
      value.contribution call.function call.operands = .ok none) (values : List Value) :
    call.gather (values.filter keep) = call.gather values := by
  apply Accumulator.foldl_take_congr numeric
  rw [List.filter_comm, passedOn_filter level, contributions_filter idle]

/-- One infinity or NaN among the contributions, and the result is one. -/
theorem result_gather_of_nonfinite [Hashing] (numeric : call.function.isNumeric = true)
    (member : .float x ∈ call.contributions (call.passedOn (values.filter fun v => !v.isNull)))
    (special : x.toFloat.isFinite = false) :
    ∃ y, (call.gather values).result = .float y ∧ y.toFloat.isFinite = false := by
  rw [gather]
  cases function : call.function with
  | sum =>
      obtain ⟨y, sum, infinite⟩ := Quantity.exists_foldl_more member special
      have total := Accumulator.foldl_take_total function
        (call.passedOn (values.filter fun v => !v.isNull)) none
      rw [sum] at total
      exact ⟨y, congrArg Accumulator.result total, infinite⟩
  | avg =>
      have contributed := (List.length_pos_of_mem member).ne'
      rw [Accumulator.foldl_take_average function, Accumulator.result, if_neg contributed]
      refine ⟨_, rfl, ?_⟩
      rw [FloatBits.toFloat_ofFloat]
      exact Binary64.isFinite_div (Quantity.isFinite_floatSum member special) _
  | count | max | min =>
      rw [function] at numeric
      cases numeric

theorem result_gather_of_isFloatWord [Hashing] (numeric : call.function.isNumeric = true)
    (coerces : call.operands = .coerce) {value : Value} (member : value ∈ values)
    (word : value.trimsTo IsFloatWord = true) :
    ∃ y, (call.gather values).result = .float y ∧ y.toFloat.isFinite = false := by
  cases value with
  | text s =>
      obtain ⟨x, coerced, special⟩ := Value.coerced?_of_isFloatWord (of_decide_eq_true word)
      have contributed : (Value.text s).contribution call.function call.operands =
          .ok (some (.float x)) := by
        rw [coerces, ← coerced]
        rfl
      have passed : .text s ∈ call.passedOn (values.filter fun v => !v.isNull) :=
        mem_passedOn_of_text (List.mem_filter.mpr ⟨member, rfl⟩)
      refine result_gather_of_nonfinite numeric (List.mem_filterMap.mpr ⟨_, passed, ?_⟩) special
      rw [contributed]
      rfl
  | _ => cases word

end AggregateCall

namespace Expression

variable {e : Expression} {function : AggregateFunction} {column : String} {distinct : Bool}
  {values : List Value} {rows rows' : List Row}

theorem gives_of_coercion [Formats] [Hashing] (numeric : function.isNumeric = true)
    (term : e.term = .aggregate (.of function column distinct .coerce))
    (held : Row.Hold (Name.normalize column) values rows) :
    e.Gives rows ((AggregateCall.of function column distinct .coerce).gather values).result := by
  have coerces : (AggregateCall.of function column distinct .coerce).operands = .coerce :=
    ite_self _
  refine gives_of_faultless term ?_ held fun row _ => ?_
  · cases function <;> first | rfl | cases numeric
  · rw [AggregateCall.fault?, coerces]

/-- Where operands are coerced, a text that is no decimal numeral makes no difference, unless it is a
word for a float. Such a word is not passed over, and makes the result an infinity or NaN. -/
theorem gives_without_texts [Formats] [Hashing] (numeric : function.isNumeric = true)
    (term : e.term = .aggregate (.of function column distinct .coerce))
    (held : Row.Hold (Name.normalize column) values rows) :
    let numerals := values.filter fun value => !value.trimsTo fun chars => ¬ IsNumeral chars
    let readable := values.filter fun value =>
      !value.trimsTo fun chars => ¬ (IsNumeral chars ∨ IsFloatWord chars)
    ∃ result, e.Gives rows result ∧
      ((∀ value ∈ values, value.trimsTo IsFloatWord = false) →
        ∀ rows', Row.Hold (Name.normalize column) numerals rows' → e.Gives rows' result) ∧
      ((∃ value ∈ values, value.trimsTo IsFloatWord = true) →
        ∃ x, result = .float x ∧ x.toFloat.isFinite = false) ∧
      ∀ rows', Row.Hold (Name.normalize column) readable rows' → e.Gives rows' result := by
  intro numerals readable
  let call : AggregateCall := .of function column distinct .coerce
  have coerces : call.operands = .coerce := ite_self _
  have same : call.gather readable = call.gather values := by
    refine AggregateCall.gather_filter numeric ?_ (fun value dropped => ?_) values
    · exact fun a b same => congrArg _ (Value.trimsTo_eq_of_same same)
    · obtain ⟨other, skipped⟩ := Value.coerced?_of_unreadable (by simpa using dropped)
      simp only [Value.contribution, other, coerces, skipped]
  have given (rows' : List Row) (held' : Row.Hold (Name.normalize column) readable rows') :
      e.Gives rows' (call.gather values).result :=
    same ▸ gives_of_coercion numeric term held'
  refine ⟨_, gives_of_coercion numeric term held, fun wordless rows' held' => given rows' ?_, ?_,
    given⟩
  · have alike : numerals = readable := List.filter_congr fun value member => by
      rw [Value.trimsTo_of_wordless (wordless value member)]
    rwa [← alike]
  · rintro ⟨value, member, word⟩
    exact AggregateCall.result_gather_of_isFloatWord numeric coerces member word

open scoped Formats Hashing in
/-- Blanks around a numeral, a text that is none twice over, and a point alone. -/
theorem gives_without_texts_prices :
    let e : Expression := ⟨.aggregate (.of .avg "v" true .coerce), "", rfl⟩
    let rows (values : List Value) := values.map fun value => Row.ofFields [("v", value)]
    let numerals : List Value := [.text " +.5E1 ", .null, .integer 5, .text "-7."]
    let values : List Value :=
      [.text "n/a", .text " +.5E1 ", .null, .text ".", .integer 5, .text "n/a", .text "-7."]
    ∃ result, e.Gives (rows values) result ∧ e.Gives (rows numerals) result := by
  intro e rows numerals values
  have name : Name.normalize "v" = "v" := by decide +kernel
  have held (values : List Value) : Row.Hold (Name.normalize "v") values (rows values) := by
    rw [name]
    exact Row.hold_map_ofFields "v" values
  have term : e.term = .aggregate (.of .avg "v" true .coerce) := rfl
  obtain ⟨result, gives, wordless, -⟩ := gives_without_texts rfl term (held values)
  refine ⟨result, gives, wordless (by decide +kernel) _ ?_⟩
  have left : (values.filter fun value => !value.trimsTo fun chars => ¬ IsNumeral chars) =
      numerals := by decide +kernel
  rw [left]
  exact held numerals

open scoped Formats Hashing in
/-- A text that is not a number takes the sum of the others away. -/
theorem nan_is_not_skipped :
    let e : Expression := ⟨.aggregate (.of .sum "v" false .coerce), "", rfl⟩
    let rows (values : List Value) := values.map fun value => Row.ofFields [("v", value)]
    let values : List Value := [.integer 1, .text "nan"]
    (values.filter fun value => !value.trimsTo fun chars => ¬ IsNumeral chars) = [.integer 1] ∧
      e.Gives (rows values) (.float (.ofFloat (0.0 / 0.0))) ∧
      e.Gives (rows [.integer 1]) (.integer 1) := by
  intro e rows values
  exact ⟨by decide +kernel, gives_of_toOption (by decide +kernel),
    gives_of_toOption (by decide +kernel)⟩

end Expression

end RowQuery
