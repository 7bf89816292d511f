/-
The names an expression reads and declares, found without evaluating it.

A name that is read before it is declared is a parameter, and counts as declared from then on.

* `Expr.mention` — goes through an expression, in the order of its operands; the value of an
  assignment comes before its target;
* `Expr.mentionTarget` — the target of an assignment that does not declare a name: its variable is
  read.

What would fail on every evaluation fails here too: operators that are only read, and targets that
cannot be assigned to.
-/
import PromptMarkup.Computation
import PromptMarkup.Expr.Syntax
import PromptMarkup.NameSet
import PromptMarkup.Problem

namespace PromptMarkup

/-- The names that are declared, and the parameters found so far. -/
structure Names where
  declared : NameSet
  parameters : NameSet
deriving DecidableEq, Repr

/-- Reads a name. -/
def Names.read (names : Names) (name : String) : Names :=
  if name ∈ names.declared then names
  else ⟨names.declared.insert name, names.parameters.insert name⟩

/-- Declares a name. -/
def Names.declare (names : Names) (name : String) : Names :=
  { names with declared := names.declared.insert name }

/-- A computation on names.  It may fail, and keeps the names found before. -/
abbrev Naming := Computation Problem Names

/-- Fails with a fault at a span. -/
def Naming.fail {α : Type} (fault : Fault) (span : Span) : Naming α :=
  throw { fault, start := span.start, stop := span.stop }

/-- Runs a computation on names: its result, and the names afterwards. -/
def Naming.runOn {α : Type} (names : Names) (c : Naming α) : Except Problem α × Names :=
  c.runFrom names

namespace Expr

mutual

/-- Goes through an expression. -/
def mention : Expr → Naming Unit
  | literal _ _ => pure ()
  | identifier _ name => modify fun names => names.read name
  | array _ elements => mentionElements elements
  | object _ members => mentionMembers members
  | sequence _ es => mentionAll es
  | binary span op left right => do
    if !op.isSupported then
      Naming.fail (.unsupportedOperator op.text) span
    else
      mention left
      mention right
  | logical _ _ left right => do
    mention left
    mention right
  | unary span op argument =>
    if !op.isSupported then
      Naming.fail (.unsupportedOperator op.text) span
    else
      mention argument
  | update _ _ _ argument => mentionTarget argument
  | assignment _ .assign (identifier _ name) value => do
    mention value
    modify fun names => names.declare name
  | assignment _ _ target value => do
    mention value
    mentionTarget target
  | conditional _ test consequent alternate => do
    mention test
    mention consequent
    mention alternate
  | member _ owner property _ => do
    mention owner
    mentionProperty property
  | call _ callee arguments _ => do
    mention callee
    mentionElements arguments
  | chain _ inner => mention inner

/-- Goes through elements. -/
def mentionElements : List Element → Naming Unit
  | [] => pure ()
  | .item e :: rest => do
    mention e
    mentionElements rest
  | .spread e :: rest => do
    mention e
    mentionElements rest

/-- Goes through the members of an object. -/
def mentionMembers : List Member → Naming Unit
  | [] => pure ()
  | .property key value :: rest => do
    mentionKey key
    mention value
    mentionMembers rest
  | .spread e :: rest => do
    mention e
    mentionMembers rest

/-- Goes through the key of a member of an object. -/
def mentionKey : Key → Naming Unit
  | .fixed _ => pure ()
  | .computed e => mention e

/-- Goes through what is read from an object. -/
def mentionProperty : Property → Naming Unit
  | .named _ => pure ()
  | .computed e => mention e

/-- Goes through several expressions. -/
def mentionAll : List Expr → Naming Unit
  | [] => pure ()
  | e :: rest => do
    mention e
    mentionAll rest

/-- Goes through the target of an assignment, whose variable has to exist. -/
def mentionTarget : Expr → Naming Unit
  | identifier _ name => modify fun names => names.read name
  | member _ owner property false => do
    mentionTarget owner
    mentionProperty property
  | e => Naming.fail .invalidAssignmentTarget e.span

end

end Expr

end PromptMarkup
