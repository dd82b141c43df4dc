import Rationale.Specification.Composition
import Rationale.Text.Blank

/-!
# Drafts

A specification is drafted first and then created under a statement.
Creating it checks the draft: the statement and every fixed assertion
have to hold more than white space, and a factory that reads an
underlying result needs one.  The first fault found is reported, in the
order in which the checks are listed.

There are three kinds of draft.  A `Source` says what decides and nothing
else, a `Draft` adds a factory for each branch, and a `QuantifierDraft`
lifts an item specification to lists.
-/

namespace Rationale

/-! ## Checks -/

/-- The fault of a statement, if it has one. -/
def statementFault (statement : String) : Option Fault :=
  if Text.isBlank statement then some .emptyStatement else none

/-- The fault of fixed values, if one of them has a blank text. -/
def fixedFault {τ : Type} [Metadata τ] (statement : String)
    (values : List τ) : Option Fault :=
  if (values.filterMap Metadata.asAssertion).any Text.isBlank then
    some (.emptyAssertion statement)
  else none

/-- Something without faults, or the fault. -/
def checked {α : Type 1} (fault : Option Fault) (a : α) : Except Error α :=
  match fault with
  | some fault => .error (.construction fault)
  | none => .ok a

/-! ## What decides -/

/-- What decides whether a specification is satisfied. -/
inductive Source (τ ν M : Type) : Type 1 where
  /-- A predicate. -/
  | predicate (p : M → Traced ν Raised Bool)
  /-- Another specification. -/
  | specification (inner : Specification τ ν M)
  /-- A function that makes results. -/
  | function (f : Place → M → Traced ν Raised (Result τ))

namespace Source

variable {τ ν M : Type}

/-- Whether no result is made before a factory runs. -/
def isPredicate : Source τ ν M → Bool
  | .predicate _ => true
  | .specification _ | .function _ => false

/-- The specification with this source and these factories. -/
def toSpecification (source : Source τ ν M) (place : Place)
    (statement : String) (branches : Option (Branches (Factory τ ν M))) :
    Specification τ ν M :=
  match source with
  | .predicate p => .atomic ⟨place, statement, {}⟩ p branches
  | .specification inner => .wrapper ⟨place, statement, {}⟩ inner branches
  | .function f => .computed ⟨place, statement, {}⟩ f branches

/-- Creates a specification without factories.  A predicate declares its
statement, and a wrapper forwards what it wraps. -/
def create (source : Source τ ν M) (place : Place) (statement : String) :
    Except Error (Specification τ ν M) :=
  checked (statementFault statement) (source.toSpecification place statement none)

end Source

/-! ## Policies -/

/-- A specification whose branches decide on one value each. -/
structure Policy (τ ν M : Type) : Type 1 where
  /-- The specification that decides. -/
  specification : Specification τ ν M

/-! ## Drafts with factories -/

/-- A source with a factory for each branch. -/
structure Draft (τ ν M : Type) : Type 1 where
  /-- What decides. -/
  source : Source τ ν M
  /-- What is declared. -/
  branches : Branches (Factory τ ν M)
  /-- The notation, where the usual one is not wanted. -/
  style : Option Notation := none

namespace Draft

variable {τ ν M : Type} [Metadata τ]

/-- The first fault of a draft under a statement. -/
def fault? (d : Draft τ ν M) (statement : String) : Option Fault :=
  statementFault statement
    <|> fixedFault statement d.branches.whenTrue.fixed
    <|> fixedFault statement d.branches.whenFalse.fixed
    <|> if d.source.isPredicate
          && (d.branches.whenTrue.needsUnderlying
            || d.branches.whenFalse.needsUnderlying) then
        some (.unsupportedFactory statement)
      else none

/-- The specification of a draft, checked or not. -/
def toSpecification (d : Draft τ ν M) (place : Place) (statement : String) :
    Specification τ ν M :=
  let s := d.source.toSpecification place statement (some d.branches)
  match d.style with
  | some style => s.restyle style place
  | none => s

/-- Creates the specification under a statement. -/
def create (d : Draft τ ν M) (place : Place) (statement : String) :
    Except Error (Specification τ ν M) :=
  checked (d.fault? statement) (d.toSpecification place statement)

/-- The statement that a fixed true value makes by itself. -/
def defaultStatement? (d : Draft τ ν M) : Option String :=
  match d.branches.whenTrue with
  | .constant value => Metadata.asAssertion value
  | _ => none

/-- Creates the specification under the text of its fixed true value. -/
def createDefault (d : Draft τ ν M) (place : Place) :
    Except Error (Specification τ ν M) :=
  match d.defaultStatement? with
  | some statement => d.create place statement
  | none => .error (.construction .missingStatement)

/-- Creates a policy.  Each branch has to make exactly one value. -/
def createPolicy (d : Draft τ ν M) (place : Place) (statement : String) :
    Except Error (Policy τ ν M) :=
  if d.branches.whenTrue.isSingleValued
      && d.branches.whenFalse.isSingleValued then
    checked (d.fault? statement) ⟨d.toSpecification place statement⟩
  else .error (.construction .multiValuedPolicy)

end Draft

/-! ## Drafts of quantifiers -/

/-- A quantifier over an item specification, with the factories that were
supplied. -/
structure QuantifierDraft (τ ν I : Type) : Type 1 where
  /-- The specification of the items. -/
  item : Specification τ ν I
  /-- How many items have to be satisfied. -/
  quantifier : Quantifier
  /-- What is declared for a satisfied quantifier. -/
  whenTrue : Option (SnapshotFactory τ ν I) := none
  /-- What is declared for an unsatisfied quantifier. -/
  whenFalse : Option (SnapshotFactory τ ν I) := none

namespace QuantifierDraft

variable {τ ν I : Type} [Metadata τ]

/-- Both factories, if both were supplied. -/
def branches? (d : QuantifierDraft τ ν I) :
    Option (Branches (SnapshotFactory τ ν I)) :=
  match d.whenTrue, d.whenFalse with
  | some whenTrue, some whenFalse => some ⟨whenTrue, whenFalse⟩
  | _, _ => none

/-- The fault of the factories.  Both may be missing if a statement makes
a value by itself. -/
def branchesFault (d : QuantifierDraft τ ν I) (statement : String) :
    Option Fault :=
  match d.whenTrue, d.whenFalse with
  | some whenTrue, some whenFalse =>
    fixedFault statement whenTrue.fixed
      <|> fixedFault statement whenFalse.fixed
  | none, none =>
    if (Metadata.fromStatement (τ := τ) statement).isSome then none
    else some (.missingFactory statement .whenTrue)
  | none, some _ => some (.missingFactory statement .whenTrue)
  | some _, none => some (.missingFactory statement .whenFalse)

/-- The first fault of a draft under a statement. -/
def fault? (d : QuantifierDraft τ ν I) (statement : String) : Option Fault :=
  statementFault statement <|> d.branchesFault statement

/-- The specification of a draft, checked or not.  The notation is that
of the items. -/
def toSpecification (d : QuantifierDraft τ ν I) (place : Place)
    (statement : String) : Specification τ ν (List I) :=
  .quantified ⟨place, statement, d.item.style⟩ d.quantifier d.item d.branches?

/-- Creates the specification under a statement. -/
def create (d : QuantifierDraft τ ν I) (place : Place) (statement : String) :
    Except Error (Specification τ ν (List I)) :=
  checked (d.fault? statement) (d.toSpecification place statement)

/-- The statement that a fixed true value makes by itself. -/
def defaultStatement? (d : QuantifierDraft τ ν I) : Option String :=
  match d.whenTrue with
  | some (.constant value) => Metadata.asAssertion value
  | _ => none

/-- Creates the specification under the text of its fixed true value. -/
def createDefault (d : QuantifierDraft τ ν I) (place : Place) :
    Except Error (Specification τ ν (List I)) :=
  match d.defaultStatement? with
  | some statement => d.create place statement
  | none => .error (.construction .missingStatement)

/-- Whether a supplied factory always makes exactly one value. -/
def isSingleValued (factory : Option (SnapshotFactory τ ν I)) : Bool :=
  match factory with
  | some factory => factory.isSingleValued
  | none => false

/-- Creates a policy.  Each branch has to make exactly one value. -/
def createPolicy (d : QuantifierDraft τ ν I) (place : Place)
    (statement : String) : Except Error (Policy τ ν (List I)) :=
  if isSingleValued d.whenTrue && isSingleValued d.whenFalse then
    checked (d.fault? statement) ⟨d.toSpecification place statement⟩
  else .error (.construction .multiValuedPolicy)

end QuantifierDraft

end Rationale
