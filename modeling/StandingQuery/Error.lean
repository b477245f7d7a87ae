import StandingQuery.Pattern
import StandingQuery.PatternSet
import StandingQuery.Text.Json.Fault

/-! What can go wrong, as causes.

A query text can be *malformed*; a query can be well formed and still *unsupported*;
a configuration can be *misconfigured*; a line of data can be a *bad statement*; and
the table of queries can decline. Each cause carries what its wording needs, and the
wording stands here and nowhere else. -/
namespace StandingQuery
open Text (quoted)

abbrev QueryId := Nat

/-- What stands in place of something the query syntax asks for. -/
inductive Malformed where
  | noTuplePatterns
  | unexpectedInput (gap : String)
  | endOfQuery (expected : String)
  | expectedPunct (punct found : String)
  | prefixName (found : String)
  | namespaceIri (found : String)
  | queryForm (found : String)
  | emptyProjection
  | filterInTemplate
  | emptyGroup
  | unterminatedGroup
  | afterTriple (found : String)
  | literalPredicate (found : String)
  | unexpected (found : String)
  | comparison (found : String)
  | filterEnd (found : String)
  | endInsideFilter
  | afterGroup (found : String)
  | count (clause found : String)
  | undeclaredPrefix (name : String)
  | notPrefixed (name : String)
deriving DecidableEq

namespace Malformed

def message : Malformed → String
  | noTuplePatterns => "graph pattern has no tuple patterns"
  | unexpectedInput gap => "unexpected input " ++ quoted gap
  | endOfQuery expected => "unexpected end of query, expected " ++ expected
  | expectedPunct punct found => "expected " ++ quoted punct ++ ", found " ++ quoted found
  | prefixName found => "malformed prefix name " ++ quoted found
  | namespaceIri found => "expected a namespace IRI, found " ++ quoted found
  | queryForm found => "expected SELECT, ASK or CONSTRUCT, found " ++ quoted found
  | emptyProjection => "SELECT needs `*` or at least one variable"
  | filterInTemplate => "FILTER is not allowed in a CONSTRUCT template"
  | emptyGroup => "the WHERE group contains no triple patterns"
  | unterminatedGroup => "unterminated group, expected `\x7d`"
  | afterTriple found => "expected `.` after triple pattern, found " ++ quoted found
  | literalPredicate found => "a literal cannot be a predicate: " ++ quoted found
  | unexpected found => "unexpected " ++ quoted found
  | comparison found => "expected `=` or `!=` in FILTER, found " ++ quoted found
  | filterEnd found => "expected `)` to close FILTER, found " ++ quoted found
  | endInsideFilter => "unexpected end of query inside FILTER"
  | afterGroup found => "unexpected " ++ quoted found ++ " after the WHERE group"
  | count clause found => clause ++ " expects a non-negative integer, found " ++ quoted found
  | undeclaredPrefix name => "undeclared prefix " ++ quoted (name ++ ":")
  | notPrefixed name => "not a prefixed name: " ++ quoted name

end Malformed

/-- What a well-formed query may ask for and this library does not offer. -/
inductive Unsupported where
  | keyword (name : String)
  | selectExpression
  | constructWhere
  | describe
  | nestedGroup
  | propertyPath
  | blankNodeList
  | filterStart (found : String)
  | filterOperator (found : String)
  | compoundFilter
  | filterExpression (found : String)
  | arity (pattern : TuplePattern) (expected : Nat)
  | askAndConstruct
  | unboundProjection (v : Variable)
  | tooManyPatterns (count : Nat)
  | disconnected (unreached : List TuplePattern)
  | ttlTooLong (ttl maximum : Nat)
deriving DecidableEq

namespace Unsupported

def message : Unsupported → String
  | keyword name => name ++ " is not supported"
  | selectExpression => "SELECT expressions are not supported"
  | constructWhere => "CONSTRUCT WHERE shorthand is not supported"
  | describe => "DESCRIBE queries are not supported"
  | nestedGroup => "nested groups and subqueries are not supported"
  | propertyPath => "property paths are not supported"
  | blankNodeList => "blank node property lists and collections are not supported"
  | filterStart found => "unsupported FILTER expression starting at " ++ quoted found
  | filterOperator found => "FILTER operator " ++ quoted found ++ " is not supported"
  | compoundFilter => "compound FILTER expressions are not supported"
  | filterExpression found => "FILTER expression " ++ quoted found ++ " is not supported"
  | arity pattern expected =>
    "tuple pattern " ++ quoted (toString pattern) ++ " has arity " ++ toString pattern.arity ++
      ", engine is configured for " ++ toString expected
  | askAndConstruct => "a query cannot be both ASK and CONSTRUCT"
  | unboundProjection v =>
    "projected variable " ++ toString v ++ " does not occur in the graph pattern"
  | tooManyPatterns count =>
    "graph pattern has " ++ toString count ++ " tuple patterns, at most " ++
      toString PatternSet.capacity ++ " are supported"
  | disconnected unreached =>
    "graph pattern is not connected; no shared variable reaches [" ++
      ", ".intercalate (unreached.map toString) ++ "]"
  | ttlTooLong ttl maximum =>
    "query ttl of " ++ toString ttl ++ "s exceeds the configured maximum of Some(" ++
      toString maximum ++ ")s"

end Unsupported

/-- Why a configuration is refused. -/
inductive Misconfigured where
  /-- The text is not JSON, or does not fit the settings. -/
  | unreadable (fault : Text.Json.Fault) (place : Text.Json.Place)
  | arity (found : Nat)
  | reducedCapacity
  | pollInterval
  | maxQueries
deriving DecidableEq

namespace Misconfigured

def message : Misconfigured → String
  | unreadable fault place => fault.message ++ " at " ++ place.message
  | arity found => "arity must be 3 or 4, got " ++ toString found
  | reducedCapacity => "reduced_capacity must be positive"
  | pollInterval => "housekeeping_poll_ms must be positive"
  | maxQueries => "registry.max_queries must be positive"

end Misconfigured

/-- Why a line of data is no statement. A role names the place of a term in its statement. -/
inductive BadStatement where
  | noDot (line : String)
  | expectedIri (role found : String)
  | unclosedIri (role : String)
  | whitespaceInIri (role iri : String)
  | emptyLabel
  | object (found : String)
  | unclosedLiteral
  | datatype (found : String)
  | emptyLanguageTag
  | trailing (rest : String)
deriving DecidableEq

namespace BadStatement

def message : BadStatement → String
  | noDot line => "Missing terminating '.': " ++ line
  | expectedIri role found => "Expected '<' for " ++ role ++ " IRI, got: " ++ found
  | unclosedIri role => "Missing closing '>' for " ++ role ++ " IRI"
  | whitespaceInIri role iri => "Whitespace inside " ++ role ++ " IRI: " ++ iri
  | emptyLabel => "Empty blank node label"
  | object found => "Invalid object format: " ++ found
  | unclosedLiteral => "Missing closing quote for literal"
  | datatype found => "Expected datatype IRI after '^^', got: " ++ found
  | emptyLanguageTag => "Empty language tag"
  | trailing rest => "Unexpected trailing input: " ++ rest

end BadStatement

/-- Why the table of queries declines. -/
inductive Declined where
  | notFound (id : QueryId)
  | alreadyExists (id : QueryId)
  | full
deriving DecidableEq

namespace Declined

def message : Declined → String
  | notFound id => "Query not found : " ++ toString id
  | alreadyExists id => "Query already exists : " ++ toString id
  | full => "Maximum number of registered queries reached"

/-- The cause by its name. -/
def shown : Declined → String
  | notFound id => "QueryNotFound(" ++ toString id ++ ")"
  | alreadyExists id => "QueryAlreadyExists(" ++ toString id ++ ")"
  | full => "MaxQueriesReached"

end Declined

inductive Error where
  | invalidQuery (cause : Malformed)
  | incompatibleQuery (cause : Unsupported)
  | config (cause : Misconfigured)
  | parse (cause : BadStatement)
  | registry (cause : Declined)
deriving DecidableEq

namespace Error

/-- The wording of the cause alone. -/
def detail : Error → String
  | invalidQuery cause => cause.message
  | incompatibleQuery cause => cause.message
  | config cause => cause.message
  | parse cause => cause.message
  | registry cause => cause.message

/-- The full wording: the kind of error, then the cause. -/
def message : Error → String
  | invalidQuery cause => "Invalid query: " ++ cause.message
  | incompatibleQuery cause => "Incompatible query: " ++ cause.message
  | config cause => "Configuration error: " ++ cause.message
  | parse cause => "Parse error: " ++ cause.message
  | registry cause => "Registry error: " ++ cause.message

/-- The kind of an error by its name, with its quoted wording. -/
def shown : Error → String
  | invalidQuery cause => "InvalidQuery(" ++ Text.shown cause.message ++ ")"
  | incompatibleQuery cause => "IncompatibleQuery(" ++ Text.shown cause.message ++ ")"
  | config cause => "Config(" ++ Text.shown cause.message ++ ")"
  | parse cause => "Parse(" ++ Text.shown cause.message ++ ")"
  | registry cause => "Registry(" ++ cause.shown ++ ")"

end Error

end StandingQuery
