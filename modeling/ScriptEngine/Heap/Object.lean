import ScriptEngine.Value

/-!
# Objects

An object has properties of its own, a link to a prototype that is fixed when the object is made, and,
if it is a function, something to run. Properties are kept as a list with one entry per name.
-/

namespace ScriptEngine

/-! ## Properties -/

/-- What may be done with a property. -/
structure PropertyFlags where
  /-- The property is listed among the object's keys. -/
  enumerable : Bool
  /-- The value of a data property may be replaced. -/
  writable : Bool
  /-- The property may be removed. -/
  deletable : Bool
  deriving DecidableEq, Repr, Inhabited

namespace PropertyFlags

/-- A property made by plain assignment: everything may be done with it. -/
def default : PropertyFlags := ⟨true, true, true⟩

/-- A property that describes the object itself, such as a function's name. -/
def hidden : PropertyFlags := ⟨false, false, false⟩

/-- A property that a script may change and remove, but does not list. -/
def method : PropertyFlags := ⟨false, true, true⟩

/-- A declared global variable: it stays for good. -/
def declared : PropertyFlags := ⟨true, true, false⟩

/-- The flags of a bit mask: enumerable, writable, deletable, from the lowest bit on. -/
def ofBits (n : Nat) : PropertyFlags :=
  ⟨n.testBit 0, n.testBit 1, n.testBit 2⟩

/-- The bit mask of the flags. -/
def toBits (f : PropertyFlags) : Nat :=
  f.enumerable.toNat + 2 * f.writable.toNat + 4 * f.deletable.toNat

end PropertyFlags

/-- A property: a value, or a pair of functions that stand for reading and writing one. -/
inductive Property where
  /-- A stored value. -/
  | data (value : Value) (flags : PropertyFlags)
  /-- Functions that are called to read and to write. -/
  | accessor (getter setter : Option Handle) (flags : PropertyFlags)
  deriving DecidableEq, Inhabited

/-- What may be done with the property. -/
def Property.flags : Property → PropertyFlags
  | data _ flags | accessor _ _ flags => flags

/-- The objects that a property refers to. -/
def Property.references : Property → List Handle
  | data value _ => value.object?.toList
  | accessor getter setter _ => getter.toList ++ setter.toList

/-- The properties of an object, at most one per name. -/
structure PropertyTable where
  /-- Names and properties. -/
  entries : List (String × Property) := []
  deriving DecidableEq, Inhabited

namespace PropertyTable

/-- The property of a name. -/
def get? (t : PropertyTable) (name : String) : Option Property :=
  t.entries.lookup name

/-- Whether there is a property of the name. -/
def contains (t : PropertyTable) (name : String) : Bool :=
  (t.get? name).isSome

/-- The entries with the property of one name set, at its old place or at the end. -/
def insertEntry (name : String) (p : Property) : List (String × Property) → List (String × Property)
  | [] => [(name, p)]
  | (other, q) :: rest =>
    if name == other then (name, p) :: rest else (other, q) :: insertEntry name p rest

/-- Sets the property of a name. -/
def insert (t : PropertyTable) (name : String) (p : Property) : PropertyTable :=
  ⟨insertEntry name p t.entries⟩

/-- Removes the property of a name. -/
def erase (t : PropertyTable) (name : String) : PropertyTable :=
  ⟨t.entries.filter fun entry => entry.1 != name⟩

/-- The first entry is found under its name, and all else further on. -/
theorem lookup_entry (first : String) (q : Property) (rest : List (String × Property))
    (name : String) :
    List.lookup name ((first, q) :: rest) = if name = first then some q else rest.lookup name := by
  by_cases same : name = first
  · simp [same]
  · simp [List.lookup_cons, same, beq_false_of_ne same]

/-- Setting an entry changes what is found under its name and nothing else. -/
theorem lookup_insertEntry (name : String) (p : Property) (entries : List (String × Property))
    (other : String) :
    (insertEntry name p entries).lookup other =
      if other = name then some p else entries.lookup other := by
  induction entries with
  | nil => simp only [insertEntry, lookup_entry]
  | cons entry rest ih =>
    obtain ⟨first, q⟩ := entry
    by_cases here : name = first
    · subst here
      simp only [insertEntry, beq_self_eq_true, if_true, lookup_entry]
      split <;> rfl
    · simp only [insertEntry, beq_false_of_ne here, lookup_entry]
      grind

/-- What is inserted is found under its name, and all else as before. -/
@[simp] theorem get?_insert (t : PropertyTable) (name : String) (p : Property) (other : String) :
    (t.insert name p).get? other = if other = name then some p else t.get? other :=
  lookup_insertEntry name p t.entries other

/-- What is erased is not found any more, and all else as before. -/
@[simp] theorem get?_erase (t : PropertyTable) (name other : String) :
    (t.erase name).get? other = if other = name then none else t.get? other := by
  obtain ⟨entries⟩ := t
  simp only [get?, erase]
  induction entries with
  | nil => simp
  | cons entry rest ih =>
    obtain ⟨first, q⟩ := entry
    rw [List.filter_cons, lookup_entry]
    by_cases gone : first = name
    · rw [if_neg (by simp [gone]), ih]
      grind
    · rw [if_pos (by simp [gone]), lookup_entry, ih]
      grind

/-- The number of properties. -/
def size (t : PropertyTable) : Nat := t.entries.length

/-- The names of the enumerable properties, in ascending order. -/
def enumerableNames (t : PropertyTable) : List String :=
  ((t.entries.filter fun entry => entry.2.flags.enumerable).map Prod.fst).mergeSort
    fun a b => !(b < a)

end PropertyTable

/-! ## Functions -/

/-- The number of an environment in the store of environments. -/
structure EnvId where
  /-- Position in the store. -/
  index : Nat
  deriving DecidableEq, Repr, Hashable, Inhabited

/-- A host function: what it is called, how many arguments it declares, and which one it is. Two host
functions are the same exactly if their numbers agree. -/
structure NativeFunction where
  /-- The name that scripts see. -/
  name : String
  /-- The declared number of arguments. -/
  length : Nat
  /-- Which of the host's functions it is. -/
  id : Nat
  deriving DecidableEq, Repr

/-- A function of a program: its code, and the environment in which it was made. -/
structure Closure where
  /-- The unit that holds the code. -/
  unit : Nat
  /-- The position of the code in the unit. -/
  index : Nat
  /-- The environment around the function. -/
  env : Option EnvId
  deriving DecidableEq, Repr

/-- What a call of a function runs. -/
inductive Callable where
  /-- A host function. -/
  | native (f : NativeFunction)
  /-- A function of a program. -/
  | script (c : Closure)
  deriving DecidableEq, Repr

/-- How listings show what a function runs. -/
def Callable.toText : Callable → String
  | native f => s!"Native({f.name})"
  | script c => s!"Script({c.unit}:{c.index})"

/-- An object. -/
structure Object where
  /-- The properties of the object's own. -/
  properties : PropertyTable := {}
  /-- Where properties are looked for that the object itself lacks. -/
  prototype : Option Handle := none
  /-- What a call of the object runs, if it is a function. -/
  callable : Option Callable := none
  deriving DecidableEq, Inhabited

end ScriptEngine
