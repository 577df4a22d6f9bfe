/-!
# TOML

Documents of TOML: tables of values by keys, and how the lines of a document build them.

**Input.**  Headers, each with the path of a table; and assignments of values to paths in the table of the header
before.

**Algorithm.**  Tables on the way along a path are made if they are missing.  Each table knows how it came to be,
and that decides who may still add to it: a header may name a table that was only implied so far, a key with dots
may add to tables that no header named, and nothing may add to a table written as a value.

**Place.**  TOML is read at the start of the program and nowhere else; what the theory says begins with the values that
were read.

**Results.**  `assign_twice`: a key is never assigned twice.
-/

namespace CompilerRelay

/-- How a table came to be. -/
inductive TableKind where
  /-- It stands on the path of a header. -/
  | implied
  /-- It stands on the path of a key with dots. -/
  | dotted
  /-- A header names it. -/
  | header
  /-- It was written as a value. -/
  | inline
  deriving DecidableEq, Repr

/-- A value of TOML.  The values of fractions and times are not kept, as no setting is one. -/
inductive Toml where
  | string (text : String)
  | integer (value : Int)
  | fraction
  | boolean (value : Bool)
  | time
  | array (items : List Toml)
  /-- Tables that are listed under a header, newest first. -/
  | tables (items : List (List (String × Toml)))
  | table (kind : TableKind) (members : List (String × Toml))

namespace Toml

/-- The members of a table, in the order in which they came. -/
abbrev Members := List (String × Toml)

/-- The value of a member. -/
def member? (key : String) (members : Members) : Option Toml :=
  members.lookup key

/-- Change the value of a member, or add it. -/
def update (key : String) (change : Option Toml → Option Toml) : Members → Option Members
  | [] => (change none).map fun value => [(key, value)]
  | (own, value) :: rest =>
      if own = key then (change (some value)).map fun value => (own, value) :: rest
      else (update key change rest).map ((own, value) :: ·)

/-- Change the members of the table that a value is, or of a new one. -/
def enter (dotted : Bool) (change : Members → Option Members) : Option Toml → Option Toml
  | none => (change []).map (.table (if dotted then .dotted else .implied))
  | some (.table kind members) =>
      if kind = .inline || (dotted && kind = .header) then none
      else (change members).map (.table kind)
  | some (.tables (last :: earlier)) =>
      if dotted then none else (change last).map fun members => .tables (members :: earlier)
  | some _ => none

/-- Change the members of the table that a path leads to. -/
def within (dotted : Bool) : List String → (Members → Option Members) → Members → Option Members
  | [], change => change
  | key :: path, change => update key (enter dotted (within dotted path change))

/-- Name a table by a header. -/
def openTable (path : List String) (key : String) (members : Members) : Option Members :=
  within false path
    (update key fun
      | none => some (.table .header [])
      | some (.table .implied members) => some (.table .header members)
      | some _ => none)
    members

/-- Add a table to those that are listed under a header. -/
def openEntry (path : List String) (key : String) (members : Members) : Option Members :=
  within false path
    (update key fun
      | none => some (.tables [[]])
      | some (.tables items) => some (.tables ([] :: items))
      | some _ => none)
    members

/-- Give a key its value, if it has none. -/
def put (key : String) (value : Toml) : Members → Option Members :=
  update key fun
    | none => some value
    | some _ => none

/-- Assign a value to the key at a path in a table. -/
def assign (path : List String) (key : String) (value : Toml) (members : Members) : Option Members :=
  within true path (put key value) members

theorem assign_twice
    {key : String} {first second : Toml} {before after : Members}
    (assigned : assign [] key first before = some after) :
    assign [] key second after = none := by
  simp only [assign, within, put] at assigned ⊢
  induction before generalizing after with
  | nil =>
      simp only [update, Option.map_some, Option.some.injEq] at assigned
      subst assigned
      simp [update]
  | cons entry rest ih =>
      obtain ⟨own, value⟩ := entry
      unfold update at assigned
      split at assigned
      · exact absurd assigned (by simp)
      · next other =>
          obtain ⟨tail, done, shape⟩ := Option.map_eq_some_iff.mp assigned
          subst shape
          simp [update, other, ih done]

end Toml
end CompilerRelay
