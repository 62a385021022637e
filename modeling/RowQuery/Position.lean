/-!
Places in a text, for messages.
-/

namespace RowQuery

/-- A place in a text: characters before it, and its line and column, both counted from 1. -/
structure Position where
  offset : Nat
  line : Nat
  column : Nat
deriving DecidableEq, Repr

namespace Position

/-- The place of the first character. -/
def start : Position := ⟨0, 1, 1⟩

instance : Inhabited Position := ⟨start⟩

/-- The place after a character. -/
def after (p : Position) (c : Char) : Position :=
  if c = '\n' then ⟨p.offset + 1, p.line + 1, 1⟩ else ⟨p.offset + 1, p.line, p.column + 1⟩

/-- The place after some characters. -/
def afterAll (p : Position) (chars : List Char) : Position :=
  chars.foldl after p

@[simp] theorem offset_after (p : Position) (c : Char) : (p.after c).offset = p.offset + 1 := by
  unfold after
  split <;> rfl

@[simp] theorem offset_afterAll (p : Position) (chars : List Char) :
    (p.afterAll chars).offset = p.offset + chars.length := by
  induction chars generalizing p with
  | nil => rfl
  | cons c rest ih =>
    simp only [afterAll, List.foldl_cons] at ih ⊢
    rw [ih]
    simp only [offset_after, List.length_cons]
    omega

/-- A place as messages name it. -/
def render (p : Position) : String :=
  "line " ++ toString p.line ++ ", column " ++ toString p.column

end Position

end RowQuery
