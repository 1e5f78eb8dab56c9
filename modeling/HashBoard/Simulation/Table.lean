/-!
# Tables

A table maps keys to values and keeps the order in which keys came first. It is as plain as can be:
the tables of a simulated board hold some dozen entries.
-/

namespace HashBoard.Simulation

/-- Keys with a value each. -/
abbrev Table (κ α : Type) := List (κ × α)

namespace Table

variable {κ α : Type} [DecidableEq κ]

/-- The value of a key. -/
def get? : Table κ α → κ → Option α
  | [], _ => none
  | (k, a) :: rest, key => if k = key then some a else get? rest key

/-- The value of a key, or a default. -/
def getD (t : Table κ α) (key : κ) (default : α) : α := (get? t key).getD default

/-- The table with another value for a key. -/
def put : Table κ α → κ → α → Table κ α
  | [], key, value => [(key, value)]
  | (k, a) :: rest, key, value =>
    if k = key then (k, value) :: rest else (k, a) :: put rest key value

/-- The table without a key. -/
def remove (t : Table κ α) (key : κ) : Table κ α := t.filter fun e ↦ e.1 ≠ key

theorem get?_put (t : Table κ α) (key key' : κ) (value : α) :
    get? (put t key value) key' = if key = key' then some value else get? t key' := by
  induction t with
  | nil => simp [put, get?]
  | cons e rest ih =>
    obtain ⟨k, a⟩ := e
    by_cases h : k = key
    · subst h
      by_cases h' : k = key' <;> simp [put, get?, h']
    · by_cases h' : k = key'
      · subst h'
        simp [put, get?, h, Ne.symm h]
      · simp [put, get?, h, h', ih]

end Table

end HashBoard.Simulation
