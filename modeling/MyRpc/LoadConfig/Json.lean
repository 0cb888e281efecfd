import Mathlib

/-!
# JSON values as `nlohmann::json` has them

A document is a tree of values; an object has one value for a key.  A number
without fraction and exponent is an integer.  Where the library throws, because
a value has another type than the one that is asked for, the result is `none`.
-/

namespace MyRpc.LoadConfig

inductive Json
  | null
  | boolean (b : Bool)
  | integer (n : ℤ)
  | float (q : ℚ)
  | string (s : String)
  | array (elements : List Json)
  | object (members : List (String × Json))

namespace Json

/-- `find`, behind the `[]` of a key that is there. -/
def find : Json → String → Option Json
  | object members, key => members.lookup key
  | _, _ => none

def contains (config : Json) (key : String) : Bool := (config.find key).isSome

/-- `value(key, default)` for a type that is read by `get`. -/
def value {α : Type} (get : Json → Option α) (config : Json) (key : String) (default : α) :
    Option α :=
  match config with
  | object members =>
      match members.lookup key with
      | none => some default
      | some entry => get entry
  | _ => none

/-- `get<std::string>()`. -/
def getString : Json → Option String
  | string s => some s
  | _ => none

/-- The number that `get` of an arithmetic type converts to that type; `truncate`
is what the target makes of a `double` that it converts to an integer. -/
def getNumber (truncate : ℚ → ℤ) : Json → Option ℤ
  | integer n => some n
  | float q => some (truncate q)
  | boolean b => some (if b then 1 else 0)
  | _ => none

def getInt (truncate : ℚ → ℤ) (entry : Json) : Option Int32 :=
  (entry.getNumber truncate).map Int32.ofInt

def getUInt16 (truncate : ℚ → ℤ) (entry : Json) : Option UInt16 :=
  (entry.getNumber truncate).map UInt16.ofInt

/-- What a range-based `for` runs through. -/
def elements : Json → List Json
  | array elements => elements
  | object members => members.map Prod.snd
  | null => []
  | entry => [entry]

/-- `empty()`. -/
def isEmpty : Json → Bool
  | null => true
  | array elements => elements.isEmpty
  | object members => members.isEmpty
  | _ => false

end Json

/-! ## Blocks of a configuration -/

section Blocks

variable {α β σ : Type}

/-- A part of a configuration, which may end in `return false` or in an exception
that is caught and becomes one. -/
def andThen (first second : σ → Bool × σ) (self : σ) : Bool × σ :=
  match first self with
  | (true, self) => second self
  | (false, self) => (false, self)

/-- `β field = config.value(key, default);`, the check of the field, and its setter. -/
def readField (get : Json → Option α) (config : Json) (key : String) (default : α)
    (convert : α → β) (valid : β → Bool) (set : β → σ → σ) (self : σ) : Bool × σ :=
  match config.value get key default with
  | none => (false, self)
  | some v => if valid (convert v) then (true, set (convert v) self) else (false, self)

theorem andThen_eq_true {first second : σ → Bool × σ} {self last : σ} :
    andThen first second self = (true, last) ↔
      ∃ middle, first self = (true, middle) ∧ second middle = (true, last) := by
  unfold andThen
  match first self with
  | (true, middle) => simp
  | (false, middle) => simp

theorem readField_eq_true {get : Json → Option α} {config : Json} {key : String} {default : α}
    {convert : α → β} {valid : β → Bool} {set : β → σ → σ} {self last : σ} :
    readField get config key default convert valid set self = (true, last) ↔
      ∃ v, config.value get key default = some v ∧ valid (convert v) = true ∧
        last = set (convert v) self := by
  unfold readField
  cases config.value get key default with
  | none => simp
  | some v =>
      constructor
      · intro h
        dsimp only at h
        by_cases hvalid : valid (convert v) = true
        · rw [if_pos hvalid] at h
          exact ⟨v, rfl, hvalid, (Prod.mk.inj h).2.symm⟩
        · rw [if_neg hvalid] at h
          cases h
      · rintro ⟨w, hw, hvalid, rfl⟩
        cases hw
        exact if_pos hvalid

end Blocks

end MyRpc.LoadConfig
