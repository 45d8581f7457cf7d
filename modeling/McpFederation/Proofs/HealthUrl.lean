/-
The URL that a health check polls.

`health_check` takes `/mcp` off the end of the leaf's URL and puts `/healthz` there.  It
takes it off with `trim_end_matches`, which goes on for as long as the text ends in the
pattern, and which knows nothing of schemes and hosts.  So what is before the `/mcp` must
not end in `/mcp` itself: a path `/mcp/mcp` loses both, and a host that is called `mcp`
loses its name.  `healthUrl_iff` says that nothing else can go wrong.
-/
import McpFederation.Model.Health

namespace McpFederation

/-- What is before the `/mcp` of a leaf's URL: a scheme, an authority, and a path that may
be empty and does not end in `/`. -/
structure UrlBase where
  scheme : String
  authority : String
  path : String
  authority_ne : authority ≠ ""
  authority_plain : '/' ∉ authority.toList
  path_rooted : path = "" ∨ Text.startsWith "/" path = true
  path_end : path.toList.getLast? ≠ some '/'

namespace UrlBase

def text (b : UrlBase) : String := b.scheme ++ "://" ++ b.authority ++ b.path

/-- The text does not end in `/` either. -/
theorem getLast?_text (b : UrlBase) : b.text.toList.getLast? ≠ some '/' := by
  rw [text, String.toList_append]
  by_cases hpath : b.path.toList = []
  · have hne : b.authority.toList ≠ [] := fun hc => b.authority_ne (String.toList_inj.mp hc)
    rw [hpath, List.append_nil, String.toList_append, List.getLast?_append_of_ne_nil _ hne]
    exact fun hc => b.authority_plain (List.mem_of_getLast? hc)
  · rw [List.getLast?_append_of_ne_nil _ hpath]
    exact b.path_end

end UrlBase

theorem toList_healthUrl (cl : LeafClient) :
    cl.healthUrl.toList
      = (Text.trimEndChars "/mcp".toList cl.url.toList.length cl.url.toList).rdropWhile (· = '/')
          ++ "/healthz".toList := by
  rw [LeafClient.healthUrl, Text.trimEndMatches, String.toList_append, String.toList_ofList,
    String.toList_ofList]

/-- The URL less one `/mcp`, and what is left to trim of it. -/
theorem toList_healthUrl_append {cl : LeafClient} {base : String} (h : cl.url = base ++ "/mcp") :
    cl.healthUrl.toList
      = (Text.trimEndChars "/mcp".toList (base.toList.length + 3) base.toList).rdropWhile (· = '/')
          ++ "/healthz".toList := by
  have hlen : (base ++ "/mcp").toList.length = (base.toList.length + 3) + 1 := by
    rw [String.toList_append, List.length_append]
    rfl
  rw [toList_healthUrl, h, hlen, String.toList_append, Text.trimEndChars_append]

/--
**When the health URL is the right one.**  Of a URL that ends in `/mcp`, a check polls what
is before it with `/healthz`, if and only if that does not end in `/mcp` again.
-/
theorem healthUrl_iff (cl : LeafClient) (b : UrlBase) (hurl : cl.url = b.text ++ "/mcp") :
    cl.healthUrl = b.text ++ "/healthz" ↔ ¬ "/mcp".toList <:+ b.text.toList := by
  rw [← String.toList_inj, toList_healthUrl_append hurl, String.toList_append,
    List.append_left_inj]
  refine ⟨?_, ?_⟩
  · -- A second `/mcp` goes as well, and what is left is too short.
    intro h hsuffix
    obtain ⟨rest, hrest⟩ := hsuffix
    have hshort : rest.length < b.text.toList.length := by
      rw [← hrest, List.length_append]
      exact Nat.lt_add_of_pos_right (by decide)
    rw [← hrest, Text.trimEndChars_append, hrest] at h
    have hdrop := (List.rdropWhile_prefix (· = '/')
      (Text.trimEndChars "/mcp".toList (b.text.toList.length + 2) rest)).length_le
    rw [h] at hdrop
    exact absurd (Nat.le_trans hdrop (Text.length_trimEndChars_le _ _ _)) (Nat.not_le.mpr hshort)
  · intro h
    rw [Text.trimEndChars_of_not_suffix h, List.rdropWhile_eq_self_iff]
    intro hne hlast
    rw [decide_eq_true_eq] at hlast
    exact b.getLast?_text (by rw [List.getLast?_eq_getLast_of_ne_nil hne, hlast])

/-- A leaf on the host `docs`, behind a prefix. -/
def docsBase : UrlBase where
  scheme := "http"
  authority := "docs:8080"
  path := "/team"
  authority_ne := by decide
  authority_plain := by decide
  path_rooted := Or.inr (by decide)
  path_end := by decide

def docsUrlClient : LeafClient :=
  LeafClient.new { aliasName := "docs", url := "http://docs:8080/team/mcp" }

theorem docs_health_url : docsUrlClient.healthUrl = "http://docs:8080/team/healthz" :=
  (healthUrl_iff docsUrlClient docsBase (by decide)).mpr (by decide)

/-- A leaf on a host that is called `mcp`. -/
def mcpBase : UrlBase where
  scheme := "http"
  authority := "mcp"
  path := ""
  authority_ne := by decide
  authority_plain := by decide
  path_rooted := Or.inl rfl
  path_end := by decide

def mcpHostClient : LeafClient := LeafClient.new { aliasName := "mcp", url := "http://mcp/mcp" }

/-- Its health check has no host left. -/
theorem mcp_host_lost :
    mcpHostClient.url = mcpBase.text ++ "/mcp" ∧ mcpHostClient.healthUrl = "http:/healthz" ∧
      mcpHostClient.healthUrl ≠ mcpBase.text ++ "/healthz" := by
  refine ⟨by decide, by decide, by decide⟩

end McpFederation
