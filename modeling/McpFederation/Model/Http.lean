/-
The HTTP server: routes, with the authentication in front of them.

`build_router` of `main.rs` and `router` of `api.rs`, for `/mcp` and `/api/v1/servers`.
One middleware guards both; the context it attaches is read by `handle_mcp` and by
nothing under `/api/v1`.  The registration handlers are the registry programs of
`Model/Api.lean`, run here to their end.
-/
import McpFederation.Model.Server

namespace McpFederation

/-- A request as its route sees it.  A body the extractor could not decode is `none`. -/
inductive Endpoint where
  | postMcp (body : Option JsonRpcRequest)
  | getMcp
  | deleteMcp
  | registerServer (body : Option RegisterRequest)
  | listServers
  | getServer (a : String)
  | deregisterServer (a : String)

def Endpoint.path : Endpoint → String
  | .postMcp _ => "/mcp"
  | .getMcp => "/mcp"
  | .deleteMcp => "/mcp"
  | .registerServer _ => "/api/v1/servers"
  | .listServers => "/api/v1/servers"
  | .getServer a => "/api/v1/servers/" ++ a
  | .deregisterServer a => "/api/v1/servers/" ++ a

structure HttpRequest where
  endpoint : Endpoint
  headers : HeaderMap

/-- The answer to a registration; a panic ends the request without one. -/
def registerResponse (w : Leaves) : RegisterResponse → HttpResponse
  | .badRequest e => { status := 400, body := .error e }
  | .conflict e => { status := 409, body := .error e }
  | .created leaf => { status := 201, body := .server (toServerInfo w leaf) }
  | .panicked => { status := 500 }

/-- The same state with another registry. -/
def FederationState.withRegistry (state : FederationState) (r : Registry) : FederationState :=
  { state with leaves := { state.leaves with registry := r } }

/-- The answer when the alias is not registered. -/
def notFound (a : String) : HttpResponse :=
  { status := 404, body := .error ("server '" ++ a ++ "' not found") }

/-- The handler of a route.  A body that does not decode never reaches it.  Which status the
`Json` extractor gives such a body (400, 415 or 422, by what is wrong with it) is not modelled,
and 400 stands for all three. -/
def Endpoint.handle (env : HttpEnv) (state : FederationState) (headers : HeaderMap)
    (ctx : Option RequestContext) : Endpoint → Handled
  | .postMcp (some request) => handleMcp env state headers ctx request
  | .postMcp none => reply state 400 .empty
  | .getMcp => McpFederation.getMcp env state headers
  | .deleteMcp => McpFederation.deleteMcp state headers
  | .registerServer (some req) =>
      let (registered, r) :=
        (McpFederation.registerServer req).run Registry.exec state.leaves.registry
      let state := state.withRegistry r
      { response := registerResponse state.leaves registered.response, state := state }
  | .registerServer none => reply state 400 .empty
  | .listServers => reply state 200 (.servers (McpFederation.listServers state.leaves))
  | .getServer a =>
      match McpFederation.getServer state.leaves a with
      | some info => reply state 200 (.server info)
      | none => { response := notFound a, state := state }
  | .deregisterServer a =>
      let (removed, r) :=
        (McpFederation.deregisterServer a).run Registry.exec state.leaves.registry
      let state := state.withRegistry r
      match removed with
      | some leaf => reply state 200 (.server (toServerInfo state.leaves leaf))
      | none => { response := notFound a, state := state }

/-- A request through the middleware; `read` is what reading the token file gives. -/
def serve (env : HttpEnv) (auth : AuthState) (read : Except String String)
    (state : FederationState) (req : HttpRequest) : Handled :=
  match authMiddleware auth read req.endpoint.path req.headers with
  | .unauthorized => reply state 401 .empty
  | .next ctx => req.endpoint.handle env state req.headers ctx

end McpFederation
