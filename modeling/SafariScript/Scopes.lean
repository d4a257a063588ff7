import SafariScript.Fault

/-!
# Scopes

Scopes map names to values and form a tree by their parents; a name is looked up from a scope outwards.
Declaring a name twice in one scope is a fault, declaring it again further inside is not. Scope 0 is the
global one.
-/

namespace SafariScript

/-- The names declared in one scope, and the scope around it. -/
structure Scope (α : Type) where
  bindings : List (String × α)
  parent : Option Nat

namespace Scope

variable {α : Type}

/-- The value of a name declared in this very scope. -/
def local? (s : Scope α) (name : String) : Option α :=
  s.bindings.lookup name

/-- Declare a name. -/
def insert (s : Scope α) (name : String) (value : α) : Scope α :=
  { s with bindings := (name, value) :: s.bindings }

/-- Give a name that is declared here another value. -/
def replace (s : Scope α) (name : String) (value : α) : Scope α :=
  { s with bindings := s.bindings.map fun b => if b.1 == name then (b.1, value) else b }

end Scope

/-- All scopes ever made, in the order of their making. -/
structure Scopes (α : Type) where
  all : Array (Scope α)

namespace Scopes

variable {α : Type}

/-- Only the global scope, with nothing declared in it. -/
def initial : Scopes α :=
  ⟨Array.singleton ⟨[], none⟩⟩

/-- The number of the global scope. -/
def global : Nat := 0

/-- Make a scope inside another one; gives its number. -/
def enter (ss : Scopes α) (parent : Nat) : Nat × Scopes α :=
  (ss.all.size, ⟨ss.all.push ⟨[], some parent⟩⟩)

/-- The scope around a scope. -/
def parent? (ss : Scopes α) (scope : Nat) : Option Nat :=
  ss.all[scope]?.bind Scope.parent

/-- The names and values declared in a scope. -/
def bindings (ss : Scopes α) (scope : Nat) : List (String × α) :=
  (ss.all[scope]?.map Scope.bindings).getD []

/-- The value of a name declared in this very scope. -/
def local? (ss : Scopes α) (scope : Nat) (name : String) : Option α :=
  ss.all[scope]?.bind (·.local? name)

/-- The innermost scope that declares a name, looking at so many scopes at most. -/
def resolveWithin (ss : Scopes α) (name : String) : Nat → Nat → Option Nat
  | 0, _ => none
  | fuel + 1, scope =>
    if (ss.local? scope name).isSome then some scope
    else match ss.parent? scope with
      | some outer => resolveWithin ss name fuel outer
      | none => none

/-- The innermost scope that declares a name, from a scope outwards. -/
def resolve? (ss : Scopes α) (scope : Nat) (name : String) : Option Nat :=
  ss.resolveWithin name ss.all.size scope

/-- The value of a name, seen from a scope. -/
def get? (ss : Scopes α) (scope : Nat) (name : String) : Option α :=
  (ss.resolve? scope name).bind (ss.local? · name)

/-- Change one scope. -/
def modify (ss : Scopes α) (scope : Nat) (change : Scope α → Scope α) : Scopes α :=
  ⟨ss.all.modify scope change⟩

/-- Declare a name in a scope. -/
def insert (ss : Scopes α) (scope : Nat) (name : String) (value : α) : Scopes α :=
  ss.modify scope (·.insert name value)

/-- Set a name that a scope itself declares. -/
def replace (ss : Scopes α) (scope : Nat) (name : String) (value : α) : Scopes α :=
  ss.modify scope (·.replace name value)

/-- Look a name up, or fail. -/
def get (ss : Scopes α) (scope : Nat) (name : Word) : Except Fault α :=
  match ss.get? scope name.text with
  | some value => .ok value
  | none => .error ⟨.undefinedVariable name.text, some name⟩

/-- Fail if a scope declares a name already. -/
def vacant (ss : Scopes α) (scope : Nat) (name : Word) : Except Fault Unit :=
  if (ss.local? scope name.text).isSome then .error ⟨.redeclared name.text, some name⟩ else .ok ()

/-- The innermost scope that declares a name to be assigned to, or a failure. -/
def owner (ss : Scopes α) (scope : Nat) (name : Word) : Except Fault Nat :=
  match ss.resolve? scope name.text with
  | some owner => .ok owner
  | none => .error ⟨.assignedUndefined name.text, some name⟩

/-- Declare a name in a scope; it must not be declared there yet. -/
def define (ss : Scopes α) (scope : Nat) (name : Word) (value : α) : Except Fault (Scopes α) := do
  ss.vacant scope name
  return ss.insert scope name.text value

/-- Give a name another value in the innermost scope that declares it. -/
def assign (ss : Scopes α) (scope : Nat) (name : Word) (value : α) : Except Fault (Scopes α) := do
  let owner ← ss.owner scope name
  return ss.replace owner name.text value

end Scopes
end SafariScript
