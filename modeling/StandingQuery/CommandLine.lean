import StandingQuery.Engine
import StandingQuery.Text.ConfigText
import StandingQuery.Text.ParsedQuery
import StandingQuery.Text.Quoted
import StandingQuery.Text.Statement

/-! The command line: one query over the lines of one stream.

Everything but reading and printing. A run starts with the texts of a configuration
and a query, takes one line after the other with the time at which it arrives, says
after each what is to be printed, and ends with a summary. It is over early when its
query is: nothing more can come once the limit is reached or the question answered. -/
namespace StandingQuery.CommandLine

/-! ### Options -/

structure Options where
  /-- The file with the query. -/
  query : Option String := none
  /-- The file with the data, or standard input. -/
  input : Option String := none
  /-- The file with the configuration. -/
  config : Option String := none
  strategy : Option String := none
  /-- The time to live of each tuple in seconds. -/
  ttl : Nat := 0
  /-- The time to live of the query in seconds. -/
  queryTtl : Nat := 0
  verbose : Bool := false

/-- Reads the arguments; an option and its value are separate words. -/
def Options.ofArgs? (o : Options) : List String → Except String Options
  | [] => if o.query.isSome then .ok o else .error "the option --query is required"
  | flag :: args =>
    if flag = "-v" ∨ flag = "--verbose" then Options.ofArgs? { o with verbose := true } args
    else
      match args with
      | [] => .error ("a value is required for " ++ flag ++ ", or it is no option")
      | value :: args =>
        if flag = "-q" ∨ flag = "--query" then Options.ofArgs? { o with query := some value } args
        else if flag = "-i" ∨ flag = "--input" then
          Options.ofArgs? { o with input := some value } args
        else if flag = "-c" ∨ flag = "--config" then
          Options.ofArgs? { o with config := some value } args
        else if flag = "-s" ∨ flag = "--strategy" then
          Options.ofArgs? { o with strategy := some value } args
        else if flag = "-t" ∨ flag = "--ttl" then
          match Text.decimalValue? value.toList with
          | some n => Options.ofArgs? { o with ttl := n } args
          | none => .error ("not a number of seconds: " ++ value)
        else if flag = "--query-ttl" then
          match Text.decimalValue? value.toList with
          | some n => Options.ofArgs? { o with queryTtl := n } args
          | none => .error ("not a number of seconds: " ++ value)
        else .error ("no such option: " ++ flag)

/-! ### What is printed -/

/-- A solution as one line of JSON. -/
def solutionLine (s : Solution) : String :=
  let array (items : List String) := "[" ++ ",".intercalate items ++ "]"
  let object (members : List (String × String)) :=
    "\x7b" ++ ",".intercalate (members.map fun (k, v) => Text.stored k ++ ":" ++ v) ++ "\x7d"
  let output :=
    match s.output with
    | .bindings b => ("bindings", object (b.toList.map fun (v, t) => (v.name, Text.stored t.text)))
    | .constructed ts =>
      ("constructed", array (ts.map fun t => array (t.terms.map fun t => Text.stored t.text)))
    | .ask answer => ("ask", toString answer)
  let expiration :=
    match s.expiration with
    | .instant t => toString t
    | .never => "null"
  object [("query_id", toString s.query), ("output", object [output]), ("expiration", expiration)]

/-- A line for one of the two outputs. -/
inductive Line where
  | out (text : String)
  | err (text : String)
deriving DecidableEq

/-- Why a run does not start. -/
inductive Failure where
  | unknownStrategy (name : String)
  | error (e : Error)

def Failure.lines : Failure → List String
  | .unknownStrategy name =>
    ["Error: Unknown join strategy: " ++ name, "Valid options: symmetric, caching"]
  | .error e => ["Error: " ++ e.shown]

/-! ### Runs -/

/-- The strategy by the name it has on the command line, in any mix of case. -/
def strategy? (name : String) : Option JoinStrategy :=
  let lower := String.ofList (name.toList.map Char.toLower)
  if lower = "symmetric" ∨ lower = "symmetric_hash_join" then some .symmetric
  else if lower = "caching" then some .caching
  else none

/-- A run collects the solutions that have not been printed yet. -/
def client (config : Config) : Client (List Solution) where
  respond solution := Program.update (· ++ [solution])
  cleanupDue _ since _ tuples s := (Config.intervalDue config.cleanupIntervalSecs since tuples, s)

structure Run where
  engine : Engine
  query : QueryId
  /-- The time to live of each tuple. -/
  ttl : Nat
  linesRead : Nat := 0
  tuplesAdded : Nat := 0
  malformed : Nat := 0
  delivered : Nat := 0

/-- The configuration of a run: the strategy given by name wins over the text. -/
def configure (config strategy : Option String) : Except Failure Config := do
  let c ← match config with
    | none => pure {}
    | some text => (Config.ofText? text).mapError .error
  match strategy with
  | none => return c
  | some name =>
    match strategy? name with
    | none => throw (.unknownStrategy name)
    | some joinStrategy => return { c with joinStrategy }

/-- Starts a run at an instant. Nobody calls back, so nothing is ever deferred. -/
def start (config : Config) (query : String) (queryTtl ttl now : Nat) : Except Failure Run := do
  let query ← (Query.ofText? query).mapError .error
  let engine ← (Engine.build config ⟨now⟩).mapError .error
  match Engine.register (client config) 0 engine [] query queryTtl with
  | (.done (.ok id), engine, _) => return { engine, query := id, ttl }
  | (.done (.error e), _, _) => throw (.error e)
  | (_, engine, _) => return { engine, query := 0, ttl }

namespace Run

/-- The query still wants solutions. -/
def isActive (r : Run) : Bool := r.engine.index.active.contains r.query

/-- Takes in one line at an instant. -/
def feed (r : Run) (now : Nat) (line : String) : List Line × Run :=
  let r := { r with linesRead := r.linesRead + 1 }
  match Tuple.ofLine? line with
  | .error e =>
    ([.err ("Skipping line " ++ toString r.linesRead ++ ": " ++ e.message)],
      { r with malformed := r.malformed + 1 })
  | .ok none => ([], r)
  | .ok (some t) =>
    let client := client r.engine.config
    let engine := { r.engine with front := r.engine.front.moveTo now }
    let (_, engine, solutions) := engine.add client 0 [] t r.ttl
    let (engine, solutions) := engine.housekeep client 0 solutions
    (solutions.map fun s => .out (solutionLine s),
      { r with
        engine
        tuplesAdded := r.tuplesAdded + 1
        delivered := r.delivered + solutions.length })

/-- What is said at the end. -/
def summary (r : Run) : List String :=
  ["Lines read:       " ++ toString r.linesRead,
    "Tuples added:     " ++ toString r.tuplesAdded,
    "Malformed lines:  " ++ toString r.malformed,
    "Solutions:        " ++ toString r.delivered,
    "Partials stored:  " ++ toString r.engine.front.partialCount]

/-- Takes in lines that have all arrived at one instant, as long as the query is active. -/
def feedAll (r : Run) (now : Nat) : List String → List Line × Run
  | [] => ([], r)
  | line :: rest =>
    let (printed, r) := r.feed now line
    if r.isActive then
      let (more, r) := r.feedAll now rest
      (printed ++ more, r)
    else (printed, r)

end Run

/-- The lines of a text. The last one may lack its line break. -/
def linesOf (text : String) : List String :=
  let lines := text.splitOn "\n"
  if lines.getLast? = some "" then lines.dropLast else lines

/-- A whole run at one instant: whether it succeeds, and what is printed. -/
def run (config strategy : Option String) (query input : String) (queryTtl ttl now : Nat) :
    Bool × List Line :=
  let started := do start (← configure config strategy) query queryTtl ttl now
  match started with
  | .error f => (false, f.lines.map .err)
  | .ok r =>
    let (printed, r) := r.feedAll now (linesOf input)
    (true, printed ++ r.summary.map .err)

end StandingQuery.CommandLine
