/-
The status page.

`render_status_html` and `html_escape` of `server.rs`.  The page is one literal with three
things put into it: the version, the number of leaves, and a row for each leaf.  What a row
shows of a leaf is partly text that whoever registered it has chosen.

The rows are taken from one moment, at which the clock reads `now`.
-/
import McpFederation.Model.Registry

namespace McpFederation

def htmlEscape (s : String) : String :=
  s |> Text.replace '&' "&amp;"
    |> Text.replace '<' "&lt;"
    |> Text.replace '>' "&gt;"
    |> Text.replace '"' "&quot;"
    |> Text.replace '\'' "&#39;"

def LeafHealth.color : LeafHealth → String
  | .healthy => "#2e7d32"
  | .unhealthy => "#c62828"
  | .unknown => "#757575"

/-- The tags of a leaf as its row shows them. -/
def shownTags (tags : List String) : String :=
  if tags = [] then "-" else htmlEscape (String.intercalate ", " tags)

/-- How long ago a leaf was checked; instants are in nanoseconds. -/
def shownLastCheck (lastHealthCheck : Option Nat) (now : Nat) : String :=
  match lastHealthCheck with
  | some instant => toString ((now - instant) / 1000000000) ++ "s ago"
  | none => "never"

def statusRow (config : ServerConfig) (cells : LeafCells) (now : Nat) : String :=
  "<tr>"
    ++ "<td>" ++ htmlEscape config.aliasName ++ "</td>"
    ++ "<td><code>" ++ htmlEscape config.url ++ "</code></td>"
    ++ "<td style=\"color:" ++ cells.health.color ++ ";font-weight:bold\">"
      ++ cells.health.label ++ "</td>"
    ++ "<td>" ++ toString cells.cachedTools.length ++ "</td>"
    ++ "<td>" ++ shownTags config.tags ++ "</td>"
    ++ "<td>" ++ shownLastCheck cells.lastHealthCheck now ++ "</td>"
    ++ "</tr>"

/-- The page up to its rows. -/
def statusHead (leafCount : Nat) : String :=
  "<!DOCTYPE html>\n"
    ++ "<html lang=\"en\"><head>\n"
    ++ "<meta charset=\"utf-8\">\n"
    ++ "<title>mcp-federation status</title>\n"
    ++ "<style>\n"
    ++ "body \x7b font-family: -apple-system, system-ui, sans-serif; margin: 2rem; "
      ++ "color: #212121; \x7d\n"
    ++ "h1 \x7b margin-bottom: 0.25rem; \x7d\n"
    ++ ".meta \x7b color: #666; margin-bottom: 1.5rem; \x7d\n"
    ++ "table \x7b border-collapse: collapse; width: 100%; \x7d\n"
    ++ "th, td \x7b padding: 0.5rem 0.75rem; border-bottom: 1px solid #ddd; "
      ++ "text-align: left; \x7d\n"
    ++ "th \x7b background: #f5f5f5; \x7d\n"
    ++ "code \x7b font-family: SFMono-Regular, Menlo, monospace; font-size: 0.9em; \x7d\n"
    ++ "</style>\n"
    ++ "</head><body>\n"
    ++ "<h1>mcp-federation</h1>\n"
    ++ "<div class=\"meta\">version " ++ cargoPkgVersion ++ " &middot; " ++ toString leafCount
      ++ " leaf server(s)</div>\n"
    ++ "<table>\n"
    ++ "<thead><tr>\n"
    ++ "<th>Alias</th><th>URL</th><th>Health</th><th>Tools</th><th>Tags</th><th>Last check</th>\n"
    ++ "</tr></thead>\n"
    ++ "<tbody>\n"

/-- The page after its rows. -/
def statusTail : String :=
  "\n"
    ++ "</tbody>\n"
    ++ "</table>\n"
    ++ "</body></html>"

def renderStatusHtml (w : Leaves) (now : Nat) : String :=
  let leaves := w.registry.allLeaves
  let rows := String.join (leaves.map fun leaf => statusRow leaf.config (w.cellsOf leaf) now)
  statusHead leaves.length ++ rows ++ statusTail

end McpFederation
