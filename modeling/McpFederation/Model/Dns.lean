/-
What `dig` prints, and the task that asks it.

`dns_discovery.rs`, around `reconcile`: `query_srv` runs `dig SRV +short` and reads its
output line by line, `poll_once` reconciles with what it read, and the task polls for ever.
`dig` itself is outside, and so is `from_utf8_lossy`: an output is the text it is read as.
The interval between two polls is left out, and the leaves that a poll has added are given
back, since each of them gets a warm-up.
-/
import McpFederation.Lib.Words
import McpFederation.Model.Discovery

namespace McpFederation

def stripPlus : List Char → List Char
  | '+' :: digits => digits
  | digits => digits

/-- `str::parse` for `u16`: decimal digits, with a `+` before them or not. -/
def parseU16 (s : List Char) : Option UInt16 :=
  let digits := stripPlus s
  if digits ≠ [] ∧ digits.all Char.isDigit ∧ Nat.ofDigitChars 10 digits 0 < 65536 then
    some (UInt16.ofNat (Nat.ofDigitChars 10 digits 0))
  else none

/-- The record of a line, `<priority> <weight> <port> <target>`. -/
def parseSrvLine (line : List Char) : Option SrvRecord :=
  match Words.words Text.isWhitespace line with
  | _ :: _ :: port :: target :: _ =>
      match parseU16 port with
      | none => none
      | some port =>
          let target := target.rdropWhile (· = '.')
          if target = [] then none else some { port := port, target := String.ofList target }
  | _ => none

def parseSrvOutput (stdout : String) : List SrvRecord :=
  (Text.linesChars stdout.toList).filterMap parseSrvLine

/-- How `dig` ended. -/
inductive Dig where
  | notRun (e : String)
  | exited (status stderr : String)
  | answered (stdout : String)

def querySrv : Dig → Except String (List SrvRecord)
  | .notRun e => .error ("failed to run dig: " ++ e)
  | .exited status stderr => .error ("dig exited " ++ status ++ ": " ++ Text.trim stderr)
  | .answered stdout => .ok (parseSrvOutput stdout)

def pollOnce (config : DnsDiscoveryConfig) (dig : Dig) :
    RegistryM (Except String (List LeafEntry)) :=
  match querySrv dig with
  | .error e => pure (.error e)
  | .ok records => do
      let spawned ← dnsReconcile config records
      pure (.ok spawned)

/-- One turn of the loop.  A poll that failed is logged. -/
def dnsTurn (config : DnsDiscoveryConfig) (dig : Dig) : RegistryM (List LeafEntry) := do
  let polled ← pollOnce config dig
  pure (polled.toOption.getD [])

/-- `spawn_dns_discovery`, for as long as `dig` is asked. -/
def spawnDnsDiscovery (config : DnsDiscoveryConfig) (digs : List Dig) :
    RegistryM (List LeafEntry) :=
  if config.enabled = false ∨ Text.trim config.srvName = "" then pure []
  else Prog.forEach (dnsTurn config) digs

end McpFederation
