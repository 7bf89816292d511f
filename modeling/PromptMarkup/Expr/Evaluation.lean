/-
The value of an expression.

An expression is evaluated in a scope, its operands strictly from left to right.  What has been
written to the scope before a failure stays written, and a failure points at the part of the
expression that it comes from.

* `Expr.evaluate` — the value of an expression;
* `Expr.links` — the same inside of an optional chain, where `none` means that the chain was cut
  short at a link whose left side is undefined or null;
* `Expr.targetPath` — the variable and the keys that an assignment writes to.

Only a plain assignment to a name makes a new variable.

Design notes: `links` is one recursion over the syntax tree for all kinds of expressions.  A chain
that was cut short has no value, and `orUndefined` turns that into undefined where the chain ends.
-/
import PromptMarkup.Computation
import PromptMarkup.Scope
import PromptMarkup.Value.Method
import PromptMarkup.Value.Operator

namespace PromptMarkup

/-- A computation in a scope.  It may fail, and keeps what it has written. -/
abbrev Evaluation := Computation Problem Scope

namespace Evaluation

open PromptMarkup.Computation (look)

/-- Fails with a fault at a span. -/
def fail {α : Type} (fault : Fault) (span : Span) : Evaluation α :=
  throw { fault, start := span.start, stop := span.stop }

/-- A result, whose fault belongs to a span. -/
def ofResult {α : Type} (span : Span) : Except Fault α → Evaluation α
  | .ok a => pure a
  | .error fault => fail fault span

/-- The value of a variable. -/
def readVariable (name : String) (span : Span) : Evaluation Value := do
  match ← look fun scope => scope.get? name with
  | some v => pure v
  | none => fail (.undeclared name) span

/-- Writes a variable. -/
def writeVariable (name : String) (v : Value) : Evaluation Unit :=
  modify fun scope => scope.set name v

/-- The part of a value under a key. -/
def readProperty (v : Value) (key : String) (span : Span) : Evaluation Value := do
  let made ← look fun scope => scope.stash.lookups
  modify fun scope => { scope with stash.lookups := scope.stash.lookups + 1 }
  ofResult span (v.property (.made made) key)

/-- The part of a value under several keys, the outermost first. -/
def readPath (span : Span) : List String → Value → Evaluation Value
  | [], v => pure v
  | key :: keys, v => do readPath span keys (← readProperty v key span)

/-- The value of a variable, undefined if it is not visible. -/
def valueOf (name : String) : Evaluation Value :=
  look fun scope => (scope.get? name).getD .undefined

/-- Writes the part of a variable under the given keys. -/
def writePath (name : String) (keys : List String) (v : Value) (span : Span) :
    Evaluation Unit := do
  let old ← valueOf name
  writeVariable name (← ofResult span (old.write keys v))

end Evaluation

/-- The value of a constant. -/
def Literal.value : Literal → Value
  | .undefined => .undefined
  | .null => .null
  | .boolean b => .boolean b
  | .number x => .number x
  | .string s => .string s

/-- The value of a chain; one that was cut short is undefined. -/
def orUndefined (v : Option Value) : Value :=
  v.getD .undefined

/-- How a function that is called is named in a message. -/
def Expr.calleeName : Expr → String
  | .identifier _ name => name
  | .member _ owner (.named name) _ => owner.calleeName ++ "." ++ name
  | _ => "expression"

/-- The values that a spread inserts into an array or among arguments. -/
def Value.spreadItems : Value → Except Fault (List Value)
  | .array items => .ok items
  | .string s => .ok (Value.ofChars s.toList)
  | v => .error (.invalidSpread v.kind)

/-- Items under their indices as keys. -/
def Value.indexed (items : List Value) : Fields Value :=
  items.zipIdx.map fun (v, i) => (Nat.repr i, v)

/-- The fields that a spread inserts into an object. -/
def Value.spreadFields : Value → Except Fault (Fields Value)
  | .object fields => .ok fields
  | .array items => .ok (Value.indexed items)
  | .string s => .ok (Value.indexed (Value.ofChars s.toList))
  | .function _ _ => .error .spreadOfFunction
  | _ => .ok []

/-- The key that a value gives in an object. -/
def Value.asKey (v : Value) : Except Fault String :=
  match v with
  | .array _ | .object _ | .function _ _ => .error (.invalidObjectKey v.kind)
  | v => .ok v.text

open Evaluation

/-- Calls a function. -/
def callFunction (host : Host) (callee : Expr) (span : Span) (f : Value) (args : List Value) :
    Evaluation Value :=
  match f with
  | .function _ meaning =>
    match meaning.call host args with
    | .ok v => pure v
    | .error e => fail (.callFailed callee.calleeName e.message) span
  | _ => fail (.notAFunction callee.calleeName) callee.span

namespace Expr

mutual

/-- Evaluates an expression inside of a chain; `none` means that the chain was cut short. -/
def links (host : Host) : Expr → Evaluation (Option Value)
  | literal _ l => pure (some l.value)
  | identifier span name => do return some (← readVariable name span)
  | array _ elements => do return some (.array (← items host elements))
  | object _ members => do return some (.object (← fields host [] members))
  | sequence _ es => do return some (← inOrder host .undefined es)
  | binary span op left right => do
    if !op.isSupported then
      fail (.unsupportedOperator op.text) span
    else
      let a := orUndefined (← links host left)
      let b := orUndefined (← links host right)
      return some (← ofResult span (op.apply a b))
  | logical _ op left right => do
    let a := orUndefined (← links host left)
    if op.keeps a then
      return some a
    else
      return some (orUndefined (← links host right))
  | unary span op argument => do
    if !op.isSupported then
      fail (.unsupportedOperator op.text) span
    else
      let v := orUndefined (← links host argument)
      return some (← ofResult span (op.apply v))
  | update span op leading argument => do
    match orUndefined (← links host argument) with
    | .number old =>
      let new := op.apply old
      let (name, keys) ← targetPath host argument
      writePath name keys (.number new) argument.span
      return some (.number (if leading then new else old))
    | v => fail (.updateOfNonNumber op.text v.kind) span
  | assignment _ .assign (identifier _ name) value => do
    let v := orUndefined (← links host value)
    writeVariable name v
    return some v
  | assignment _ .assign target value => do
    let (name, keys) ← targetPath host target
    let v := orUndefined (← links host value)
    writePath name keys v target.span
    return some v
  | assignment span (.binary op _) target value => do
    let (name, keys) ← targetPath host target
    let old ← readPath target.span keys (← valueOf name)
    let right := orUndefined (← links host value)
    let v ← ofResult span (op.apply old right)
    writePath name keys v target.span
    return some v
  | assignment _ (.logical op) target value => do
    let (name, keys) ← targetPath host target
    let old ← readPath target.span keys (← valueOf name)
    if op.keeps old then
      return some old
    else
      let v := orUndefined (← links host value)
      writePath name keys v target.span
      return some v
  | conditional _ test consequent alternate => do
    if (orUndefined (← links host test)).truthy then
      return some (orUndefined (← links host consequent))
    else
      return some (orUndefined (← links host alternate))
  | member span owner property optional => do
    match ← links host owner with
    | none => return none
    | some v =>
      if optional && v.isNullish then
        return none
      else
        let key ← propertyKey host property
        return some (← readProperty v key span)
  | call span callee arguments optional => do
    match ← links host callee with
    | none => return none
    | some f =>
      if optional && f.isNullish then
        return none
      else
        let args ← items host arguments
        return some (← callFunction host callee span f args)
  | chain _ inner => do return some (orUndefined (← links host inner))

/-- The values of elements. -/
def items (host : Host) : List Element → Evaluation (List Value)
  | [] => pure []
  | .item e :: rest => do
    let v := orUndefined (← links host e)
    return v :: (← items host rest)
  | .spread e :: rest => do
    let v := orUndefined (← links host e)
    let vs ← ofResult e.span v.spreadItems
    return vs ++ (← items host rest)

/-- The fields that members add to those written before. -/
def fields (host : Host) (before : Fields Value) : List Member → Evaluation (Fields Value)
  | [] => pure before
  | .property key value :: rest => do
    let k ← memberKey host key
    let v := orUndefined (← links host value)
    fields host (Fields.put before k v) rest
  | .spread e :: rest => do
    let v := orUndefined (← links host e)
    let more ← ofResult e.span v.spreadFields
    fields host (Fields.putAll before more) rest

/-- The key of a member of an object. -/
def memberKey (host : Host) : Key → Evaluation String
  | .fixed name => pure name
  | .computed e => do
    let v := orUndefined (← links host e)
    ofResult e.span v.asKey

/-- The key of what is read from an object. -/
def propertyKey (host : Host) : Property → Evaluation String
  | .named name => pure name
  | .computed e => do return (orUndefined (← links host e)).text

/-- The value of the last of several expressions. -/
def inOrder (host : Host) (last : Value) : List Expr → Evaluation Value
  | [] => pure last
  | e :: rest => do
    let v := orUndefined (← links host e)
    inOrder host v rest

/-- The variable and the keys that an assignment writes to. -/
def targetPath (host : Host) : Expr → Evaluation (String × List String)
  | identifier span name => do
    if ← Computation.look fun scope => scope.sees name then
      return (name, [])
    else
      fail (.undeclared name) span
  | member _ owner property false => do
    let (name, keys) ← targetPath host owner
    let key ← propertyKey host property
    return (name, keys ++ [key])
  | e => fail .invalidAssignmentTarget e.span

end

/-- The value of an expression. -/
def evaluate (host : Host) (e : Expr) : Evaluation Value :=
  orUndefined <$> e.links host

end Expr

/-- Runs a computation in a scope: its result, and the scope afterwards. -/
def Evaluation.runIn {α : Type} (scope : Scope) (c : Evaluation α) : Except Problem α × Scope :=
  c.runFrom scope

end PromptMarkup
