import ColumnQuery.Expr.Basic
import ColumnQuery.Schema.ReadKind

/-! # Errors

Causes of failure and their wording. A compiler that cannot handle a shape does not fail: it gives
no result and the caller falls back. Errors are left for invalid queries, unsound reads and faults
in the data. -/

namespace ColumnQuery

/-- Why a declared model or a table does not fit its schema. -/
inductive SchemaFault where
  | duplicateEntity (entity : String)
  | unresolvedTable (table entity : String)
  | missingField (entity member table : String)
  | memberMismatch (entity member : String) (declared : MemberType) (stored : StoredKind)
      (count : Nat)
  | memberAndNavigation (entity member : String)
  | undeclaredKey (entity member : String)
  | keyNotInteger (entity member : String)
  | undeclaredKeyArray (entity member : String)
  | keyArrayNotIntegers (entity member : String)
  | unknownTarget (entity navigation target : String)
  | duplicateRow (id : Int) (table : String)
  | unknownField (table field : String)
  | unstorable (field type : String)
  | arrayNeeded (field : String)
  | tooManyElements (field : String) (limit given : Nat)
  | zeroByte (field : String)
  deriving DecidableEq, Repr

inductive UnsupportedUse where
  | operator (name : String)
  | nestedQuery (entity : String)
  | methodOn (method type : String)
  | methodOnSequence (method : String)
  deriving DecidableEq, Repr

/-- Why an expression cannot be interpreted at all. -/
inductive InvalidExpression where
  | unboundParameter (name : String)
  | lambdaAsValue
  | lambdaExpected
  | noSource (found : String)
  | endsInReducer
  | noReducer
  deriving DecidableEq, Repr

inductive TypeMismatch where
  | conversion (type : String) (kind : ScalarKind)
  | boolExpected (type : String)
  | arithmetic (op : Arithmetic) (left right : String)
  | noMember (type member : String)
  | needleExpected (type : String)
  | entityExpected (type : String)
  deriving DecidableEq, Repr

/-- What an operator asks of its argument. -/
inductive ArgumentShape where
  | lambda
  | literalInteger
  | nonNegativeInteger
  | navigationPath
  deriving DecidableEq, Repr

inductive Error where
  | schema (fault : SchemaFault)
  | unknownEntity (name : String)
  | unknownTable (name : String)
  | unknownMember (entity member : String)
  | unsupportedOperator (use : UnsupportedUse)
  | invalidArgument (operator : Method) (expected : ArgumentShape)
  | reducerNotLast (reducer : String)
  | includeAfterSelect
  | detachedThenInclude
  | invalidNavigationShape (entity navigation target : String)
  | invalidExpression (cause : InvalidExpression)
  | virtualForeignKey (entity field : String)
  | virtualStringRead (field : String)
  | stringArrayCollection (member : String)
  | rowNotFound (id : Int)
  | idOutOfRange (id : Int)
  | fieldType (column : Nat) (requested : ReadKind)
  | columnOutOfRange (column : Nat)
  | nullReference (member : String)
  | typeMismatch (cause : TypeMismatch)
  | divisionByZero
  | sequenceEmpty
  | sequenceMoreThanOne
  deriving DecidableEq, Repr

def SchemaFault.message : SchemaFault → String
  | .duplicateEntity entity => s!"entity `{entity}` is declared more than once"
  | .unresolvedTable table entity => s!"table `{table}` of entity `{entity}` cannot be resolved"
  | .missingField entity member table =>
    s!"member `{entity}.{member}` has no field in table `{table}`"
  | .memberMismatch entity member declared stored count =>
    s!"member `{entity}.{member}` is declared as {declared.listing} but its field holds " ++
      s!"{stored.listing} x{count}"
  | .memberAndNavigation entity member =>
    s!"`{entity}.{member}` is declared as both a member and a navigation"
  | .undeclaredKey entity member => s!"key member `{entity}.{member}` is not declared"
  | .keyNotInteger entity member => s!"key member `{entity}.{member}` must be an integer"
  | .undeclaredKeyArray entity member => s!"key array member `{entity}.{member}` is not declared"
  | .keyArrayNotIntegers entity member =>
    s!"key array member `{entity}.{member}` must be an array of integers"
  | .unknownTarget entity navigation target =>
    s!"navigation `{entity}.{navigation}` targets unknown entity `{target}`"
  | .duplicateRow id table => s!"row id {id} appears twice in table `{table}`"
  | .unknownField table field => s!"table `{table}` has no field `{field}`"
  | .unstorable field type => s!"field `{field}` cannot store a {type} value"
  | .arrayNeeded field => s!"field `{field}` needs an array value"
  | .tooManyElements field limit given => s!"field `{field}` holds {limit} elements, got {given}"
  | .zeroByte field => s!"string stored in `{field}` contains a zero byte"

def UnsupportedUse.message : UnsupportedUse → String
  | .operator name => name
  | .nestedQuery entity => s!"nested query over `{entity}`"
  | .methodOn method type => s!"{method} on {type}"
  | .methodOnSequence method => s!"{method} on a collection"

def InvalidExpression.message : InvalidExpression → String
  | .unboundParameter name => s!"unbound parameter `{name}`"
  | .lambdaAsValue => "a lambda is not a value"
  | .lambdaExpected => "expected a lambda"
  | .noSource found => s!"query must start at an entity source, found {found}"
  | .endsInReducer => "query ends in a reducer; use `execute_scalar`"
  | .noReducer => "query does not end in a reducer"

def TypeMismatch.message : TypeMismatch → String
  | .conversion type kind => s!"cannot convert {type} to {kind.name}"
  | .boolExpected type => s!"expected bool, found {type}"
  | .arithmetic op left right => s!"cannot apply `{op.symbol}` to {left} and {right}"
  | .noMember type member => s!"{type} has no member `{member}`"
  | .needleExpected type => s!"expected a string needle, found {type}"
  | .entityExpected type => s!"expected an entity, found {type}"

def ArgumentShape.message : ArgumentShape → String
  | .lambda => "a lambda"
  | .literalInteger => "a literal integer"
  | .nonNegativeInteger => "a non-negative integer"
  | .navigationPath => "a navigation member path"

def Error.message : Error → String
  | .schema fault => s!"schema error: {fault.message}"
  | .unknownEntity name => s!"unknown entity type `{name}`"
  | .unknownTable name => s!"unknown table `{name}`"
  | .unknownMember entity member => s!"`{entity}` has no member `{member}`"
  | .unsupportedOperator use => s!"unsupported query operator `{use.message}`"
  | .invalidArgument operator expected =>
    s!"invalid argument to `{operator.name}`: expected {expected.message}"
  | .reducerNotLast reducer => s!"`{reducer}` must be the last operator of a query"
  | .includeAfterSelect =>
    "`Include` cannot follow a `Select` that changes the element type"
  | .detachedThenInclude => "`ThenInclude` must follow `Include` or `ThenInclude`"
  | .invalidNavigationShape entity navigation target =>
    s!"navigation `{entity}.{navigation}` must be declared as a read-only collection of `{target}`"
  | .invalidExpression cause => s!"invalid expression: {cause.message}"
  | .virtualForeignKey entity field =>
    s!"foreign key `{entity}.{field}` is virtual and cannot be used as a join key"
  | .virtualStringRead field => s!"string field `{field}` is virtual and cannot be read from a row"
  | .stringArrayCollection member =>
    s!"string array `{member}` cannot be read as a collection; declare it as an array"
  | .rowNotFound id => s!"row {id} not found"
  | .idOutOfRange id => s!"id {id} is outside the row id range"
  | .fieldType column requested => s!"column {column} cannot be read as {requested.text}"
  | .columnOutOfRange column => s!"column {column} out of range"
  | .nullReference member => s!"null reference reading `{member}`"
  | .typeMismatch cause => s!"type mismatch: {cause.message}"
  | .divisionByZero => "arithmetic error: division by zero"
  | .sequenceEmpty => "sequence contains no elements"
  | .sequenceMoreThanOne => "sequence contains more than one element"

end ColumnQuery
