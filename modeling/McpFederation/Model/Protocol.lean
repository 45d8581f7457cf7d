/-
The messages: JSON-RPC requests and responses, and the errors a leaf call ends in.

`mcp/protocol.rs` and `error.rs`.  The text of every error is the one the program
prints, since a client sees it: `dispatch` turns a `FederationError` into a JSON-RPC
error whose message is its `Display` form.
-/
import McpFederation.Model.Json

namespace McpFederation

/-- `FederationError`.  The source of `LeafUnreachable` is kept as its text. -/
inductive FederationError where
  | config (message : String)
  | leafUnreachable (aliasName source : String)
  | leafError (aliasName message : String)
  | unknownLeaf (aliasName : String)
  | toolNotFound (name : String)
  | invalidToolName (message : String)
  | leafUnhealthy (aliasName : String)
deriving Repr, DecidableEq

/-- The `Display` form of an error. -/
def FederationError.toText : FederationError → String
  | .config m => "config error: " ++ m
  | .leafUnreachable a s => "leaf server '" ++ a ++ "' is unreachable: " ++ s
  | .leafError a m => "leaf server '" ++ a ++ "' returned error: " ++ m
  | .unknownLeaf a => "unknown leaf server: " ++ a
  | .toolNotFound n => "tool not found: " ++ n
  | .invalidToolName m => "invalid tool name format: " ++ m
  | .leafUnhealthy a => "leaf server '" ++ a ++ "' is unhealthy"

structure JsonRpcRequest where
  id : Option Value
  method : String
  params : Value

structure JsonRpcError where
  code : Int
  message : String
deriving Repr, DecidableEq

structure JsonRpcResponse where
  jsonrpc : String
  id : Option Value
  result : Option Value
  error : Option JsonRpcError

def successResponse (request : JsonRpcRequest) (result : Value) : JsonRpcResponse :=
  { jsonrpc := "2.0", id := request.id, result := some result, error := none }

def errorResponse (request : JsonRpcRequest) (code : Int) (message : String) : JsonRpcResponse :=
  { jsonrpc := "2.0", id := request.id, result := none, error := some ⟨code, message⟩ }

def methodNotFound (request : JsonRpcRequest) : JsonRpcResponse :=
  errorResponse request (-32601) ("Method not found: " ++ request.method)

/-- `env!("CARGO_PKG_VERSION")`. -/
def cargoPkgVersion : String := "0.1.0"

end McpFederation
