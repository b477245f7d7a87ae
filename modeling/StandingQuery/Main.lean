import StandingQuery.CommandLine

/-! The program: reads files and standard input, and prints what a run says. -/
namespace StandingQuery.CommandLine

/-- Prints lines to the output each is meant for. -/
def print (lines : List Line) : IO Unit :=
  lines.forM fun
    | .out text => do
      IO.println text
      (← IO.getStdout).flush
    | .err text => IO.eprintln text

/-- Feeds a run from a stream until one of them ends. -/
partial def feedFrom (input : IO.FS.Stream) (r : Run) : IO Run := do
  let line ← input.getLine
  if line.isEmpty then return r
  let (printed, r) := r.feed (← IO.monoMsNow) line
  print printed
  if r.isActive then feedFrom input r else return r

/-- A number of hundredths or tenths with its point. -/
def decimal (places n : Nat) : String :=
  let unit := Nat.pow 10 places
  let fraction := toString (n % unit)
  toString (n / unit) ++ "." ++ String.ofList (List.replicate (places - fraction.length) '0') ++ fraction

def fail (lines : List String) : IO UInt32 := do
  print (lines.map .err)
  return 1

def runWith (o : Options) : IO UInt32 := do
  let config ← o.config.mapM (fun path => IO.FS.readFile path)
  match configure config o.strategy with
  | .error f => fail f.lines
  | .ok config =>
    let query ← IO.FS.readFile (o.query.getD "")
    match start config query o.queryTtl o.ttl (← IO.monoMsNow) with
    | .error f => fail f.lines
    | .ok r =>
      let input ← match o.input with
        | none => IO.getStdin
        | some path => pure (IO.FS.Stream.ofHandle (← IO.FS.Handle.mk path .read))
      let begun ← IO.monoMsNow
      let r ← feedFrom input r
      let elapsed := (← IO.monoMsNow) - begun
      IO.eprintln ""
      print (r.summary.map .err)
      IO.eprintln ("Elapsed time:     " ++ decimal 2 ((elapsed + 5) / 10) ++ "s")
      if 0 < elapsed then
        IO.eprintln ("Throughput:       " ++ decimal 1 (r.tuplesAdded * 10000 / elapsed) ++ " tuples/sec")
      return 0

end StandingQuery.CommandLine

open StandingQuery.CommandLine in
def main (args : List String) : IO UInt32 := do
  match Options.ofArgs? {} args with
  | .error reason => fail ["error: " ++ reason]
  | .ok o => runWith o
