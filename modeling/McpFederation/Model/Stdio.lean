/-
The stdio transport.

`run_stdio` of `server.rs`: requests are lines of standard input, and for every line that is
not blank it prints one line to standard output.  There is one client, it is anonymous, and it
has no session; neither the origin check nor the rate limiter is asked.

The log goes to standard output too: `main` sets up a subscriber with the default writer, and
`dispatch` logs every request.  Only what `run_stdio` prints itself is modelled; the lines of
the log that come in between are left out.

`BufRead::lines` is written out over bytes.  A line that is not UTF-8, or a read that fails,
ends the loop.
-/
import McpFederation.Model.Wire

namespace McpFederation

/-- What standard input gives until it ends, or fails. -/
structure Stdin where
  bytes : List UInt8
  fails : Bool := false

/-- `read_until(b'\n')` over and over: every piece keeps the line feed that ends it. -/
def readUntilLf : List UInt8 → List (List UInt8)
  | [] => []
  | b :: bytes =>
      if b = 10 then [b] :: readUntilLf bytes
      else
        match readUntilLf bytes with
        | [] => [[b]]
        | piece :: rest => (b :: piece) :: rest

/-- A line without its `\n` or `\r\n`. -/
def popLineEnd (line : List Char) : List Char :=
  match Text.stripLast '\n' line with
  | none => line
  | some line => Text.stripCr line

/-- `read_line`, as `lines` gives it. -/
def lineOf (piece : List UInt8) : Option String :=
  (String.fromUTF8? piece.toByteArray).map fun s => String.ofList (popLineEnd s.toList)

/-- The lines before the first error. -/
def untilError : List (Option String) → List String
  | some line :: rest => line :: untilError rest
  | none :: _ => []
  | [] => []

/-- The lines that the loop sees.  What was read before a failure is lost with it, if no line
feed has ended it. -/
def Stdin.lines (stdin : Stdin) : List String :=
  let pieces := readUntilLf stdin.bytes
  let pieces := if stdin.fails then pieces.filter (·.getLast? = some 10) else pieces
  untilError (pieces.map lineOf)

def blank (line : String) : Bool := Text.trim line = ""

/-- The answer to a line that is no request. -/
def parseError (e : String) : Value :=
  .obj [("jsonrpc", .string "2.0"), ("id", .null),
    ("error", .obj [("code", codeValue (-32700)), ("message", .string ("Parse error: " ++ e))])]

namespace Host

variable (host : Host)

/-- One line of input, and the line it is answered with.  What `dispatch` logs meanwhile is left
out. -/
def stdioLine (line : String) (s : Hosted) : Option String × Hosted :=
  if blank line then (none, s)
  else
    match host.json.request line with
    | .error e => (some (host.json.value (parseError e)), s)
    | .ok request =>
        let d := dispatch (host.env s.exchanges).server s.state request none .anonymous
        (some (host.json.response d.response),
          { state := d.state
            exchanges := s.exchanges + 1
            forwarded := s.forwarded ++ d.forwarded })

/-- `run_stdio`: what it prints itself, and the state in which it ends. -/
def runStdio : List String → Hosted → String × Hosted
  | [], s => ("", s)
  | line :: rest, s =>
      match host.stdioLine line s with
      | (none, s) => runStdio rest s
      | (some text, s) =>
          let (out, s) := runStdio rest s
          (text ++ "\n" ++ out, s)

end Host

end McpFederation
