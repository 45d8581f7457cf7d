/-
When the bearer-token middleware enforces authentication.

The middleware asks one question, `resolve_token`, and reads its answer `None` as "no
auth configured".  A token file that cannot be read gives the same answer, so a server
whose only credential is such a file serves every request as anonymous for as long as
the file stays unreadable.  `enforces_iff` says that this is the only way
authentication is lost: with a token in force, a request outside the exempt paths
reaches a handler exactly when it presents that token or some client's.
-/
import McpFederation.Model.Rbac

namespace McpFederation

/-- A server that is meant to check tokens. -/
def AuthState.Configured (auth : AuthState) : Prop :=
  auth.token.isSome = true ∨ auth.tokenFile.isSome = true

/-- The `Authorization` header is `Bearer t`. -/
def Presents (headers : HeaderMap) (t : String) : Prop :=
  HeaderMap.getStr headers "authorization" = some ("Bearer " ++ t)

/-- The request presents the admin token in force or the token of a `clients[]` entry. -/
def Authenticated (auth : AuthState) (read : Except String String) (headers : HeaderMap) : Prop :=
  ∃ t, Presents headers t ∧
    (auth.resolveToken read = some t ∨ ∃ c ∈ auth.clients, c.token = t)

/-- The request reaches a handler if it is authenticated, and is answered 401 if not. -/
def Enforces (auth : AuthState) (read : Except String String) (path : String)
    (headers : HeaderMap) : Prop :=
  (Authenticated auth read headers → ∃ ctx, authMiddleware auth read path headers = .next ctx) ∧
    (¬ Authenticated auth read headers → authMiddleware auth read path headers = .unauthorized)

theorem presentedToken_eq_some {headers : HeaderMap} {t : String} :
    presentedToken headers = some t ↔ Presents headers t := by
  unfold presentedToken Presents
  cases hval : HeaderMap.getStr headers "authorization" with
  | none => simp
  | some v =>
      rw [Option.bind_some, Text.stripPrefix_eq_some, Option.some.injEq]

/-! ### With a token in force -/

/-- Outside the exempt paths, a request is let through exactly when its token resolves. -/
theorem authMiddleware_of_token {auth : AuthState} {read : Except String String}
    {path admin : String} (headers : HeaderMap) (htoken : auth.resolveToken read = some admin)
    (hpath : skipsAuth path = false) :
    authMiddleware auth read path headers
      = match (presentedToken headers).bind fun tok => resolve tok admin auth.clients with
        | some ctx => .next (some ctx)
        | none => .unauthorized := by
  simp only [authMiddleware, htoken, hpath]
  rfl

theorem authenticated_iff_resolves {auth : AuthState} {read : Except String String}
    {admin : String} (headers : HeaderMap) (htoken : auth.resolveToken read = some admin) :
    Authenticated auth read headers ↔
      ∃ ctx, (presentedToken headers).bind (fun tok => resolve tok admin auth.clients)
        = some ctx := by
  refine ⟨?_, ?_⟩
  · intro h
    obtain ⟨t, hpres, hvalid⟩ := h
    have hsome : (resolve t admin auth.clients).isSome = true := by
      rw [resolve_isSome]
      rcases hvalid with hadmin | hclient
      · rw [htoken, Option.some.injEq] at hadmin
        exact Or.inl hadmin.symm
      · exact Or.inr hclient
    rw [presentedToken_eq_some.mpr hpres]
    exact Option.isSome_iff_exists.mp hsome
  · intro h
    obtain ⟨ctx, hctx⟩ := h
    obtain ⟨t, ht, hres⟩ := Option.bind_eq_some_iff.mp hctx
    have hsome : (resolve t admin auth.clients).isSome = true := by rw [hres]; rfl
    refine ⟨t, presentedToken_eq_some.mp ht, ?_⟩
    rcases resolve_isSome.mp hsome with rfl | hclient
    · exact Or.inl htoken
    · exact Or.inr hclient

theorem enforces_of_token {auth : AuthState} {read : Except String String} {path admin : String}
    (headers : HeaderMap) (htoken : auth.resolveToken read = some admin)
    (hpath : skipsAuth path = false) : Enforces auth read path headers := by
  have hmid := authMiddleware_of_token headers htoken hpath
  refine ⟨?_, ?_⟩
  · intro hauth
    obtain ⟨ctx, hctx⟩ := (authenticated_iff_resolves headers htoken).mp hauth
    exact ⟨some ctx, by rw [hmid, hctx]⟩
  · intro hauth
    have hnone : (presentedToken headers).bind (fun tok => resolve tok admin auth.clients)
        = none := by
      by_contra hc
      obtain ⟨ctx, hctx⟩ := Option.ne_none_iff_exists'.mp hc
      exact hauth ((authenticated_iff_resolves headers htoken).mpr ⟨ctx, hctx⟩)
    rw [hmid, hnone]

/-! ### With none -/

/-- Without a token in force every request reaches a handler. -/
theorem authMiddleware_of_no_token {auth : AuthState} {read : Except String String}
    {path : String} (headers : HeaderMap) (htoken : auth.resolveToken read = none)
    (hpath : skipsAuth path = false) :
    authMiddleware auth read path headers = .next (some .anonymous) := by
  simp [authMiddleware, htoken, hpath]

/-- A configured server has a token in force unless its only credential is a file that
could not be read. -/
theorem resolveToken_isSome_iff {auth : AuthState} {read : Except String String}
    (hconf : auth.Configured) :
    (auth.resolveToken read).isSome = true ↔
      auth.token.isSome = true ∨ ∃ contents, read = .ok contents := by
  unfold AuthState.Configured at hconf
  unfold AuthState.resolveToken
  cases htok : auth.token with
  | some t => simp
  | none =>
      cases hfile : auth.tokenFile with
      | none => simp [htok, hfile] at hconf
      | some path => cases read <;> simp

/--
**When the middleware enforces authentication.**  On a configured server and a path that
is not exempt, exactly when an admin token is set, the token file could be read, or the
request happens to carry a client's token anyway.
-/
theorem enforces_iff (auth : AuthState) (read : Except String String) (path : String)
    (headers : HeaderMap) (hconf : auth.Configured) (hpath : skipsAuth path = false) :
    Enforces auth read path headers ↔
      auth.token.isSome = true ∨ (∃ contents, read = .ok contents) ∨
        ∃ c ∈ auth.clients, Presents headers c.token := by
  rw [← or_assoc, ← resolveToken_isSome_iff hconf]
  refine ⟨?_, ?_⟩
  · intro henf
    cases htoken : auth.resolveToken read with
    | some admin => exact Or.inl rfl
    | none =>
        right
        by_contra hclient
        have hauth : ¬ Authenticated auth read headers := by
          intro h
          obtain ⟨t, hpres, hadmin | ⟨c, hc, rfl⟩⟩ := h
          · rw [htoken] at hadmin
            simp at hadmin
          · exact hclient ⟨c, hc, hpres⟩
        have hmid := henf.2 hauth
        rw [authMiddleware_of_no_token headers htoken hpath] at hmid
        simp at hmid
  · intro h
    rcases h with htoken | ⟨c, hc, hpres⟩
    · obtain ⟨admin, hadmin⟩ := Option.isSome_iff_exists.mp htoken
      exact enforces_of_token headers hadmin hpath
    · cases htoken : auth.resolveToken read with
      | some admin => exact enforces_of_token headers htoken hpath
      | none =>
          refine ⟨fun _ => ⟨_, authMiddleware_of_no_token headers htoken hpath⟩, ?_⟩
          exact fun hauth => absurd ⟨c.token, hpres, Or.inr ⟨c, hc, rfl⟩⟩ hauth

/-- A server whose token file reads `s3cret`, asked for `/mcp` without a header. -/
theorem enforces_readable_file :
    Enforces ⟨none, some "/run/token", []⟩ (.ok "s3cret\n") "/mcp" [] :=
  (enforces_iff ⟨none, some "/run/token", []⟩ (.ok "s3cret\n") "/mcp" [] (Or.inr rfl)
    (by decide)).mpr (Or.inr (Or.inl ⟨"s3cret\n", rfl⟩))

/-- The same server while the file cannot be read: the request is let through. -/
theorem not_enforces_unreadable_file :
    AuthState.Configured ⟨none, some "/run/token", []⟩ ∧ skipsAuth "/mcp" = false ∧
      ¬ Authenticated ⟨none, some "/run/token", []⟩ (.error "permission denied") [] ∧
      authMiddleware ⟨none, some "/run/token", []⟩ (.error "permission denied") "/mcp" []
        = .next (some .anonymous) := by
  refine ⟨Or.inr rfl, by decide, ?_, by decide⟩
  intro h
  obtain ⟨t, hpres, -⟩ := h
  simp [Presents, HeaderMap.getStr] at hpres

end McpFederation
