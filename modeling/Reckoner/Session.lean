import Reckoner.Evaluation

/-!
Sessions: named scopes and evaluators, and the steps that make and use them. An evaluator works on a
scope of its own or shares one; a copy of a scope goes its own way. The tables of scopes are kept by
address, so that two scopes could hold the same one, and each is written where it is. An evaluator
remembers the tokens and the cursor of its last evaluation for inspection, and no evaluation depends
on them.
-/

namespace Reckoner

structure Evaluator where
  expression : String
  order : PowerOrder
  tokens : List Token := []
  cursor : Nat := 0
  deriving DecidableEq

namespace Evaluator

/-- Evaluates the expression afresh; what was remembered stays if it cannot be scanned. -/
def evaluate (e : Evaluator) (limits : Limits) (scope : Scope) : Evaluator × Except Halt Float :=
  let evaluation := Reckoner.evaluate limits scope e.order e.expression
  match evaluation.tokens? with
  | some tokens => ({ e with tokens := tokens, cursor := evaluation.cursor }, evaluation.result)
  | none => (e, evaluation.result)

def current (e : Evaluator) : Except Halt Token :=
  match e.tokens[e.cursor]? with
  | some token => return token
  | none => throw .pastEnd

end Evaluator

/-- What a name of a session stands for; scopes are given by their index. -/
inductive Object
  | scope (index : Nat)
  | evaluator (index : Nat) (evaluator : Evaluator)
  deriving DecidableEq

/-- The scope that an object is, or works on. -/
def Object.index : Object → Nat
  | .scope i => i
  | .evaluator i _ => i

/-- Where the tables of a scope are. -/
structure Cell where
  constants : Nat
  vars : Nat
  deriving DecidableEq, Repr

structure Session where
  /-- How much each evaluation may take. -/
  limits : Limits
  /-- All tables, by address; none is ever moved. -/
  tables : List (Table Float)
  scopes : List Cell
  objects : Table Object

/-- What is done to an object that is there. -/
inductive Use
  | copy (id : String)
  | add (values : Table Value)
  | update (values : Table Value)
  | setExpression (expression : String)
  | setOrder (order : PowerOrder)
  | setConstant (name : String) (value : Float)
  | evaluate
  | current
  | role (name : String)
  | function (name : String)
  | constant (name : String)
  | variableValue (name : String)
  | hasVariable (name : String)

inductive Step
  | newScope (id : String)
  /-- The evaluator shares the scope of a given object, or gets one of its own. -/
  | newEvaluator (id : String) (expression : String) (order : PowerOrder) (shared : Option String)
  | use (id : String) (use : Use)

/-- The object that a step is about. -/
def Step.id : Step → String
  | .newScope id | .newEvaluator id .. | .use id _ => id

/-- Why a step has no result. -/
inductive StepFault
  | failure (cause : Failure)
  /-- No such object, or not one for the step. -/
  | noObject (id : String)
  deriving DecidableEq

inductive Answer
  | done
  | number (x : Float)
  | token (t : Token)
  | role (r : Option Role)
  | function (f : Builtin)
  | truth (b : Bool)
  | fault (f : StepFault)
  deriving DecidableEq

namespace Answer

def ofHalt (h : Halt) : Answer := .fault (.failure (.halt h))

/-- What was looked up under a name. -/
def ofLookup {α : Type} (found : α → Answer) (name : String) : Option α → Answer
  | some a => found a
  | none => ofHalt (.unknownName name)

end Answer

namespace Session

/-- Where the constants are that are known from the start. -/
def builtinAddress : Nat := 0

def empty (limits : Limits) : Session := ⟨limits, [Scope.builtin.constants], [], ∅⟩

def tableAt (s : Session) (address : Nat) : Table Float := s.tables.getD address ∅

/-- The scope of an index, with its tables as they are. -/
def scopeAt (s : Session) (index : Nat) : Scope :=
  match s.scopes[index]? with
  | some cell => ⟨s.tableAt cell.constants, s.tableAt cell.vars⟩
  | none => .builtin

def setObject (s : Session) (id : String) (object : Object) : Session :=
  { s with objects := s.objects.insert id object }

/-- Makes a table, and returns its address. -/
def allocate (s : Session) (t : Table Float) : Session × Nat :=
  ({ s with tables := s.tables ++ [t] }, s.tables.length)

def write (s : Session) (address : Nat) (t : Table Float) : Session :=
  { s with tables := s.tables.set address t }

def setConstants (s : Session) (index : Nat) (t : Table Float) : Session :=
  match s.scopes[index]? with
  | some cell => s.write cell.constants t
  | none => s

def setVars (s : Session) (index : Nat) (t : Table Float) : Session :=
  match s.scopes[index]? with
  | some cell => s.write cell.vars t
  | none => s

/-- Makes a scope with a copy of the constants known from the start and with no variables, and returns
its index. -/
def newScope (s : Session) : Session × Nat :=
  let (s, constants) := s.allocate (s.tableAt builtinAddress)
  let (s, vars) := s.allocate ∅
  ({ s with scopes := s.scopes ++ [⟨constants, vars⟩] }, s.scopes.length)

/-- Makes a scope and gives it a copy of another's variables in place of its own. -/
def copyScope (s : Session) (index : Nat) : Session × Nat :=
  let (s, copy) := s.newScope
  let (s, vars) := s.allocate (s.scopeAt index).vars
  ({ s with scopes := s.scopes.modify copy fun cell => { cell with vars } }, copy)

/-- Writes the variables that a merge has come to, and tells how it went. -/
def merge (s : Session) (index : Nat) (merged : Scope × Option ValueFault) : Session × Answer :=
  (s.setVars index merged.1.vars,
    match merged.2 with
    | some fault => .fault (.failure (.value fault))
    | none => .done)

def use (s : Session) (id : String) (object : Object) : Use → Session × Answer
  | .copy copyId =>
    let (s, index) := s.copyScope object.index
    (s.setObject copyId (.scope index), .done)
  | .add values => s.merge object.index ((s.scopeAt object.index).add values)
  | .update values => s.merge object.index ((s.scopeAt object.index).update values)
  | .setConstant name value =>
    let scope := (s.scopeAt object.index).setConstant name value
    (s.setConstants object.index scope.constants, .done)
  | .setExpression expression =>
    match object with
    | .evaluator i e => (s.setObject id (.evaluator i { e with expression := expression }), .done)
    | .scope _ => (s, .done)
  | .setOrder order =>
    match object with
    | .evaluator i e => (s.setObject id (.evaluator i { e with order := order }), .done)
    | .scope _ => (s, .done)
  | .evaluate =>
    match object with
    | .evaluator i e =>
      let (e, result) := e.evaluate s.limits (s.scopeAt i)
      (s.setObject id (.evaluator i e),
        match result with
        | .ok x => .number x
        | .error h => .ofHalt h)
    | .scope _ => (s, .fault (.noObject id))
  | .current =>
    match object with
    | .evaluator _ e =>
      (s,
        match e.current with
        | .ok token => .token token
        | .error h => .ofHalt h)
    | .scope _ => (s, .fault (.noObject id))
  | .role name => (s, .role ((s.scopeAt object.index).role? name))
  | .function name => (s, .ofLookup .function name (Builtin.ofName? name))
  | .constant name => (s, .ofLookup .number name ((s.scopeAt object.index).constants.get? name))
  | .variableValue name =>
    (s, .ofLookup .number name ((s.scopeAt object.index).vars.get? name))
  | .hasVariable name => (s, .truth ((s.scopeAt object.index).vars.contains name))

def step (s : Session) : Step → Session × Answer
  | .newScope id =>
    let (s, index) := s.newScope
    (s.setObject id (.scope index), .done)
  | .newEvaluator id expression order shared =>
    let evaluator : Evaluator := { expression, order }
    match shared with
    | none =>
      let (s, index) := s.newScope
      (s.setObject id (.evaluator index evaluator), .done)
    | some other =>
      match s.objects.get? other with
      | some object => (s.setObject id (.evaluator object.index evaluator), .done)
      | none => (s, .fault (.noObject other))
  | .use id use =>
    match s.objects.get? id with
    | some object => s.use id object use
    | none => (s, .fault (.noObject id))

/-- What can be seen of an object. -/
structure View where
  vars : List (String × Float)
  /-- The tokens and the cursor of an evaluator. -/
  memory : Option (List Token × Nat)
  deriving DecidableEq

def view? (s : Session) (id : String) : Option View :=
  (s.objects.get? id).map fun object =>
    { vars := (s.scopeAt object.index).vars.sorted
      memory :=
        match object with
        | .evaluator _ e => some (e.tokens, e.cursor)
        | .scope _ => none }

/-- The answers to a list of steps, each with what is then to be seen of the object it is about. -/
def run (s : Session) : List Step → List (Answer × Option View)
  | [] => []
  | step :: steps =>
    let (s, answer) := s.step step
    (answer, s.view? step.id) :: run s steps

end Session
end Reckoner
