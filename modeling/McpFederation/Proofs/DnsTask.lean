/-
The DNS task among the others.

A poll is not one step: between the aliases that `reconcile` reads and the leaves that it adds
and removes, everything else in the program goes on using the registry.  As long as nobody
else touches an alias under the task's prefix this makes no difference, and `dns_tracked`
says what the leaves under the prefix come to over the whole life of the task, from the texts
that `dig` prints: `track` is the view of the records that the task comes to have, in which
an alias that is advertised again keeps the record it was first seen with, and a `dig` that
fails changes nothing.
-/
import McpFederation.Lib.Rely
import McpFederation.Model.Dns
import McpFederation.Proofs.Reconcile
import McpFederation.Proofs.Register

namespace McpFederation

/-! ### Records by alias -/

/-- The last record with an alias. -/
def advertised (records : List SrvRecord) (a : String) : Option SrvRecord :=
  (records.filter fun record => sanitizeAlias record.target = a).getLast?

theorem lookup_desiredRecords (records : List SrvRecord) (a : String) :
    (desiredRecords records).lookup a = advertised records a := by
  induction records using List.reverseRecOn with
  | nil => rfl
  | append_singleton records record ih =>
      have hfold : desiredRecords (records ++ [record])
          = (desiredRecords records).insert (sanitizeAlias record.target) record := by
        unfold desiredRecords
        rw [List.foldl_concat]
      unfold advertised at ih ⊢
      rw [hfold, List.filter_append]
      by_cases ha : sanitizeAlias record.target = a
      · subst ha
        simp
      · rw [AList.lookup_insert_ne (Ne.symm ha), ih]
        simp [ha]

theorem advertised_isSome {records : List SrvRecord} {a : String} :
    (advertised records a).isSome = true ↔
      ∃ record ∈ records, sanitizeAlias record.target = a := by
  rw [← lookup_desiredRecords]
  exact desiredRecords_isSome

theorem dns_of_advertised {records : List SrvRecord} {a : String}
    (h : (advertised records a).isSome = true) : Text.startsWith dnsAliasPrefix a = true := by
  obtain ⟨record, -, rfl⟩ := advertised_isSome.mp h
  exact sanitizeAlias_prefix record.target

/-! ### What others leave alone -/

/-- Under the prefix nothing has changed. -/
def DnsKept (r r' : Registry) : Prop :=
  ∀ a, Text.startsWith dnsAliasPrefix a = true → r'.getLeaf a = r.getLeaf a

instance : Std.Refl DnsKept := ⟨fun _ _ _ => rfl⟩

instance : IsTrans Registry DnsKept := ⟨fun _ _ _ h h' a ha => (h' a ha).trans (h a ha)⟩

/-- A call that touches nothing under the prefix. -/
def RegistryCall.SparesDns (c : RegistryCall) : Prop :=
  ∀ a, Text.startsWith dnsAliasPrefix a = true → c.Spares a

theorem RegistryCall.SparesDns.kept {c : RegistryCall} (h : c.SparesDns) (r : Registry) :
    DnsKept r (Registry.exec c r).2 := by
  intro a ha
  exact Registry.getLeaf_exec_of_spares (h a ha) r

/-! ### One poll -/

section

variable {config : DnsDiscoveryConfig} {records : List SrvRecord} {r s : Registry}

/-- The leaves after the first loop has been through `entries`. -/
structure Added (config : DnsDiscoveryConfig) (r : Registry)
    (entries : List ((_ : String) × SrvRecord)) (s : Registry) : Prop where
  old : ∀ a, Text.startsWith dnsAliasPrefix a = true →
    r.getLeaf a ≠ none ∨ a ∉ entries.map Sigma.fst → s.getLeaf a = r.getLeaf a
  new : ∀ entry ∈ entries, r.getLeaf entry.1 = none →
    ∃ leaf, s.getLeaf entry.1 = some leaf ∧
      leaf.config = dnsServerConfig config entry.1 entry.2

/-- A poll has been followed. -/
structure Follows (config : DnsDiscoveryConfig) (records : List SrvRecord) (r s : Registry) :
    Prop where
  gone : ∀ a, Text.startsWith dnsAliasPrefix a = true → advertised records a = none →
    s.getLeaf a = none
  kept : ∀ a leaf, (advertised records a).isSome = true → r.getLeaf a = some leaf →
    s.getLeaf a = some leaf
  added : ∀ a record, advertised records a = some record → r.getLeaf a = none →
    ∃ leaf, s.getLeaf a = some leaf ∧ leaf.config = dnsServerConfig config a record

theorem Added.nil (r : Registry) : Added config r [] r where
  old := fun _ _ _ => rfl
  new := fun _ hentry => absurd hentry List.not_mem_nil

theorem Added.other {entries : List ((_ : String) × SrvRecord)}
    (hdns : ∀ entry ∈ entries, Text.startsWith dnsAliasPrefix entry.1 = true)
    (h : Added config r entries s) {s' : Registry} (hs : DnsKept s s') :
    Added config r entries s' where
  old := fun a ha hcase => (hs a ha).trans (h.old a ha hcase)
  new := fun entry hentry hnone => by
    rw [hs entry.1 (hdns entry hentry)]
    exact h.new entry hentry hnone

/-- An entry whose alias is there changes nothing. -/
theorem Added.skip {entries : List ((_ : String) × SrvRecord)} (h : Added config r entries s)
    {entry : (_ : String) × SrvRecord} (hthere : r.getLeaf entry.1 ≠ none) :
    Added config r (entries ++ [entry]) s := by
  refine ⟨?_, ?_⟩
  · intro a ha hcase
    refine h.old a ha (hcase.imp_right fun hnot hmem => hnot ?_)
    rw [List.map_append]
    exact List.mem_append_left _ hmem
  · intro e he hnone
    rcases List.mem_append.mp he with he | he
    · exact h.new e he hnone
    · rw [List.mem_singleton.mp he] at hnone
      exact absurd hnone hthere

/-- One whose alias is not there gets a leaf. -/
theorem Added.insert {entries : List ((_ : String) × SrvRecord)} (h : Added config r entries s)
    {entry : (_ : String) × SrvRecord} (hnew : entry.1 ∉ entries.map Sigma.fst)
    (hnone : r.getLeaf entry.1 = none) :
    Added config r (entries ++ [entry])
      (s.addLeaf entry.1 (dnsServerConfig config entry.1 entry.2)) := by
  refine ⟨?_, ?_⟩
  · intro a ha hcase
    have hne : a ≠ entry.1 := by
      intro heq
      rcases hcase with hthere | hnot
      · exact hthere (heq ▸ hnone)
      · exact hnot (by rw [List.map_append]; exact List.mem_append_right _ (by simp [heq]))
    rw [Registry.getLeaf_addLeaf_ne _ _ hne]
    refine h.old a ha (hcase.imp_right fun hnot hmem => hnot ?_)
    rw [List.map_append]
    exact List.mem_append_left _ hmem
  · intro e he hnone'
    rcases List.mem_append.mp he with he | he
    · have hne : e.1 ≠ entry.1 := fun heq => hnew (heq ▸ List.mem_map_of_mem he)
      rw [Registry.getLeaf_addLeaf_ne _ _ hne]
      exact h.new e he hnone'
    · obtain rfl := List.mem_singleton.mp he
      exact ⟨_, Registry.getLeaf_addLeaf_self _ _ _, rfl⟩

/-- The first loop. -/
theorem ensures_dnsAdds (entries : List ((_ : String) × SrvRecord))
    (hnodup : (entries.map Sigma.fst).Nodup)
    (hdns : ∀ entry ∈ entries, Text.startsWith dnsAliasPrefix entry.1 = true)
    (hs : DnsKept r s) :
    (Prog.forEach (dnsAdd config (r.aliases.filter (Text.startsWith dnsAliasPrefix)))
      entries).Ensures Registry.exec DnsKept (fun _ s' => Added config r entries s') s := by
  refine Prog.ensures_forEach (fun done s => Added config r done s ∧ done <+: entries) ?_ ?_ ?_
    |>.imp fun _ _ h => h.1
  · intro done s s' h hs'
    exact ⟨h.1.other (fun entry hentry => hdns entry (h.2.subset hentry)) hs', h.2⟩
  · intro done entry rest s hentries h
    have hmem : entry ∈ entries := hentries ▸ List.mem_append_right _ List.mem_cons_self
    have hdone : done ++ [entry] <+: entries := ⟨rest, by simp [hentries]⟩
    have hin : ∀ e ∈ done ++ [entry], Text.startsWith dnsAliasPrefix e.1 = true := fun e he =>
      hdns e (hdone.subset he)
    have hexisting : entry.1 ∈ r.aliases.filter (Text.startsWith dnsAliasPrefix) ↔
        r.getLeaf entry.1 ≠ none := by
      rw [List.mem_filter, Registry.mem_aliases, ← Option.isSome_iff_exists,
        Option.isSome_iff_ne_none]
      exact and_iff_left (hdns entry hmem)
    unfold dnsAdd
    by_cases hthere : entry.1 ∈ r.aliases.filter (Text.startsWith dnsAliasPrefix)
    · rw [if_pos hthere]
      intro s' hs'
      exact ⟨(h.1.skip (hexisting.mp hthere)).other hin hs', hdone⟩
    · rw [if_neg hthere]
      have hnone : r.getLeaf entry.1 = none := not_not.mp fun hne => hthere (hexisting.mpr hne)
      have hnew : entry.1 ∉ done.map Sigma.fst := by
        rw [hentries, List.map_append, List.map_cons] at hnodup
        exact fun hc => (List.nodup_append.mp hnodup).2.2 _ hc _ List.mem_cons_self rfl
      intro s' hs' s'' hs''
      have hdns' : ∀ e ∈ done, Text.startsWith dnsAliasPrefix e.1 = true := fun e he =>
        hin e (List.mem_append_left _ he)
      exact ⟨((h.1.other hdns' hs').insert hnew hnone).other hin hs'', hdone⟩
  · exact ⟨(Added.nil r).other (fun _ he => absurd he List.not_mem_nil) hs, List.nil_prefix⟩

/-- The leaves after the second loop has been through `gone`. -/
def Pruned (gone : List String) (s t : Registry) : Prop :=
  ∀ a, Text.startsWith dnsAliasPrefix a = true →
    (a ∈ gone → t.getLeaf a = none) ∧ (a ∉ gone → t.getLeaf a = s.getLeaf a)

/-- The second loop. -/
theorem ensures_removes (gone : List String) (s : Registry) :
    (Prog.forEach removeAlias gone).Ensures Registry.exec DnsKept
      (fun _ t => Pruned gone s t) s := by
  refine Prog.ensures_forEach (fun done t => Pruned done s t) ?_ ?_ ?_
  · intro done t t' h ht a ha
    rw [ht a ha]
    exact h a ha
  · intro done b rest t _ h t' ht' t'' ht'' a ha
    rw [ht'' a ha]
    show (a ∈ done ++ [b] → (t'.removeLeaf b).getLeaf a = none) ∧
      (a ∉ done ++ [b] → (t'.removeLeaf b).getLeaf a = s.getLeaf a)
    by_cases hab : a = b
    · subst hab
      rw [Registry.getLeaf_removeLeaf_self]
      exact ⟨fun _ => rfl, fun hnot => absurd (List.mem_append_right _ (by simp)) hnot⟩
    · rw [Registry.getLeaf_removeLeaf_ne _ hab, ht' a ha]
      have hmem : a ∈ done ++ [b] ↔ a ∈ done := by simp [hab]
      rw [hmem]
      exact h a ha
  · intro a _
    exact ⟨fun hc => absurd hc List.not_mem_nil, fun _ => rfl⟩

/-- Both loops have been followed. -/
theorem Added.follows {t : Registry} (h : Added config r (desiredRecords records).entries s)
    (ht : Pruned ((r.aliases.filter (Text.startsWith dnsAliasPrefix)).filter
      (· ∉ (desiredRecords records).keys)) s t) : Follows config records r t := by
  have hkeys : ∀ a, a ∈ (desiredRecords records).keys ↔ (advertised records a).isSome = true := by
    intro a
    rw [← AList.mem_keys, ← AList.lookup_isSome, lookup_desiredRecords]
  have hstays : ∀ a, (advertised records a).isSome = true → t.getLeaf a = s.getLeaf a := by
    intro a ha
    refine (ht a (dns_of_advertised ha)).2 fun hc => ?_
    exact of_decide_eq_true (List.mem_filter.mp hc).2 ((hkeys a).mpr ha)
  refine ⟨?_, ?_, ?_⟩
  · intro a ha hnone
    have hnot : a ∉ (desiredRecords records).keys := by
      rw [hkeys, hnone]
      exact Bool.false_ne_true
    by_cases hthere : r.getLeaf a = none
    · have hout : a ∉ (r.aliases.filter (Text.startsWith dnsAliasPrefix)).filter
          (· ∉ (desiredRecords records).keys) := by
        intro hc
        obtain ⟨leaf, hleaf⟩ := Registry.mem_aliases.mp
          (List.mem_filter.mp (List.mem_filter.mp hc).1).1
        rw [hthere] at hleaf
        cases hleaf
      rw [(ht a ha).2 hout, h.old a ha (Or.inr hnot), hthere]
    · refine (ht a ha).1 (List.mem_filter.mpr ⟨List.mem_filter.mpr ⟨?_, ha⟩, ?_⟩)
      · exact Registry.mem_aliases.mpr (Option.ne_none_iff_exists'.mp hthere)
      · exact decide_eq_true hnot
  · intro a leaf ha hleaf
    have hthere : r.getLeaf a ≠ none := by
      rw [hleaf]
      exact Option.some_ne_none _
    rw [hstays a ha, h.old a (dns_of_advertised ha) (Or.inl hthere), hleaf]
  · intro a record hrecord hnone
    have hsome : (advertised records a).isSome = true := by rw [hrecord]; rfl
    rw [hstays a hsome]
    have hmem : (⟨a, record⟩ : (_ : String) × SrvRecord) ∈ (desiredRecords records).entries := by
      refine AList.mem_lookup_iff.mp ?_
      rw [lookup_desiredRecords, hrecord]
      rfl
    exact h.new ⟨a, record⟩ hmem hnone

/-- What the others do before a poll, or after it, is of no account. -/
theorem Follows.other {r' s' : Registry} (h : Follows config records r' s) (hr : DnsKept r r')
    (hs : DnsKept s s') : Follows config records r s' := by
  refine ⟨?_, ?_, ?_⟩
  · intro a ha hnone
    rw [hs a ha]
    exact h.gone a ha hnone
  · intro a leaf ha hleaf
    rw [hs a (dns_of_advertised ha)]
    exact h.kept a leaf ha ((hr a (dns_of_advertised ha)).trans hleaf)
  · intro a record ha hnone
    have hsome : (advertised records a).isSome = true := by rw [ha]; rfl
    have hdns : Text.startsWith dnsAliasPrefix a = true := dns_of_advertised hsome
    rw [hs a hdns]
    exact h.added a record ha ((hr a hdns).trans hnone)

/-- **One poll among others.** -/
theorem ensures_dnsReconcile (r : Registry) :
    (dnsReconcile config records).Ensures Registry.exec DnsKept
      (fun _ s => Follows config records r s) r := by
  intro r' hr'
  have hnodup : ((desiredRecords records).entries.map Sigma.fst).Nodup :=
    (desiredRecords records).nodupKeys
  have hdns : ∀ entry ∈ (desiredRecords records).entries,
      Text.startsWith dnsAliasPrefix entry.1 = true := by
    intro entry hentry
    obtain ⟨record, -, hrecord⟩ := desiredRecords_keys.mp
      (AList.mem_keys.mpr (List.mem_map_of_mem hentry))
    rw [← hrecord]
    exact sanitizeAlias_prefix record.target
  show (Prog.forEach (dnsAdd config (r'.aliases.filter (Text.startsWith dnsAliasPrefix)))
      (desiredRecords records).entries >>= fun spawned => Prog.forEach removeAlias _ >>= fun _ =>
        pure spawned).Ensures Registry.exec DnsKept _ r'
  refine Prog.Ensures.bind (ensures_dnsAdds (desiredRecords records).entries hnodup hdns
    (refl r')) fun spawned s hs => ?_
  refine Prog.Ensures.bind (ensures_removes _ s) fun _ t ht => ?_
  intro t' ht'
  exact (hs.follows ht).other hr' ht'

/-! ### The whole task -/

/-- The records behind the leaves, after one more `dig`.  An alias that is advertised again
keeps its record. -/
def track (view : String → Option SrvRecord) (dig : Dig) : String → Option SrvRecord :=
  match querySrv dig with
  | .error _ => view
  | .ok records => fun a => (advertised records a).map fun record => (view a).getD record

/-- The leaves under the prefix are those of the records. -/
def Tracks (config : DnsDiscoveryConfig) (view : String → Option SrvRecord) (r : Registry) :
    Prop :=
  ∀ a, Text.startsWith dnsAliasPrefix a = true →
    (r.getLeaf a).map (·.config) = (view a).map (dnsServerConfig config a)

/-- `dig` names the alias whenever it answers. -/
def NamedBy (a : String) (dig : Dig) : Prop :=
  ∀ found, querySrv dig = .ok found → ∃ record ∈ found, sanitizeAlias record.target = a

theorem Follows.tracks (h : Follows config records r s) {view : String → Option SrvRecord}
    (hview : Tracks config view r) {dig : Dig} (hdig : querySrv dig = .ok records) :
    Tracks config (track view dig) s := by
  intro a ha
  have htrack : track view dig a
      = (advertised records a).map fun record => (view a).getD record := by
    unfold track
    rw [hdig]
  have hold := hview a ha
  rw [htrack]
  cases hrecord : advertised records a with
  | none =>
      rw [h.gone a ha hrecord]
      rfl
  | some record =>
      cases hleaf : r.getLeaf a with
      | none =>
          obtain ⟨leaf, hnew, hconfig⟩ := h.added a record hrecord hleaf
          rw [hleaf] at hold
          have hnone : view a = none := Option.map_eq_none_iff.mp hold.symm
          rw [hnew, hnone, Option.map_some, hconfig]
          rfl
      | some leaf =>
          rw [h.kept a leaf (by rw [hrecord]; rfl) hleaf]
          rw [hleaf] at hold
          cases hseen : view a with
          | none =>
              rw [hseen] at hold
              cases hold
          | some seen =>
              rw [hold, hseen]
              rfl

/-- One turn of the loop. -/
theorem ensures_dnsTurn (dig : Dig) {view : String → Option SrvRecord}
    (hview : Tracks config view r) :
    (dnsTurn config dig).Ensures Registry.exec DnsKept
      (fun _ s => Tracks config (track view dig) s ∧
        ∀ a leaf, Text.startsWith dnsAliasPrefix a = true → NamedBy a dig →
          r.getLeaf a = some leaf → s.getLeaf a = some leaf) r := by
  unfold dnsTurn pollOnce
  cases hdig : querySrv dig with
  | error e =>
      intro s hs
      refine ⟨fun a ha => ?_, fun a leaf ha _ hleaf => (hs a ha).trans hleaf⟩
      have htrack : track view dig = view := by
        unfold track
        rw [hdig]
      rw [hs a ha, htrack]
      exact hview a ha
  | ok found =>
      have hpoll : (dnsReconcile config found >>= fun spawned =>
          (pure (.ok spawned) : RegistryM (Except String (List LeafEntry)))).Ensures Registry.exec
            DnsKept (fun _ s => Follows config found r s) r :=
        Prog.Ensures.bind (ensures_dnsReconcile r) fun _ _ hs _ ht => hs.other (refl r) ht
      refine Prog.Ensures.bind hpoll fun _ s hs t ht => ?_
      have hfollows := hs.other (refl r) ht
      refine ⟨hfollows.tracks hview hdig, fun a leaf _ hnamed hleaf => ?_⟩
      exact hfollows.kept a leaf (advertised_isSome.mpr (hnamed found hdig)) hleaf

/-- All of them. -/
theorem ensures_dnsTurns (digs : List Dig) {view : String → Option SrvRecord}
    (hview : Tracks config view r) :
    (Prog.forEach (dnsTurn config) digs).Ensures Registry.exec DnsKept
      (fun _ s => Tracks config (digs.foldl track view) s ∧
        ∀ a leaf, Text.startsWith dnsAliasPrefix a = true → (∀ dig ∈ digs, NamedBy a dig) →
          r.getLeaf a = some leaf → s.getLeaf a = some leaf) r := by
  refine Prog.ensures_forEach (fun done s => Tracks config (done.foldl track view) s ∧
    ∀ a leaf, Text.startsWith dnsAliasPrefix a = true → (∀ dig ∈ done, NamedBy a dig) →
      r.getLeaf a = some leaf → s.getLeaf a = some leaf) ?_ ?_ ?_
  · intro done s s' h hs
    refine ⟨fun a ha => ?_, fun a leaf ha hnamed hleaf => ?_⟩
    · rw [hs a ha]
      exact h.1 a ha
    · rw [hs a ha]
      exact h.2 a leaf ha hnamed hleaf
  · intro done dig rest s _ h
    refine (ensures_dnsTurn dig h.1).imp fun _ t ht => ⟨?_, fun a leaf ha hnamed hleaf => ?_⟩
    · rw [List.foldl_concat]
      exact ht.1
    · have hbefore : ∀ d ∈ done, NamedBy a d := fun d hd => hnamed d (List.mem_append_left _ hd)
      have hlast : NamedBy a dig := hnamed dig (List.mem_append_right _ List.mem_cons_self)
      exact ht.2 a leaf ha hlast (h.2 a leaf ha hbefore hleaf)
  · exact ⟨hview, fun _ _ _ _ hleaf => hleaf⟩

/--
**The DNS task among the others.**  Its calls may come in any order with those of other
threads and tasks, as long as these touch no alias under its prefix.  When it has been through
the outputs of `dig`, the leaves under the prefix are those of the records it has come to
track, and a leaf whose alias every answer had is the one that was there from the start.
-/
theorem dns_tracked {ι : Type} [DecidableEq ι] (henabled : config.enabled = true)
    (hname : Text.trim config.srvName ≠ "") (digs : List Dig)
    {pool : Pool ι RegistryCall RegistryCall.Reply (List LeafEntry) Registry} {i : ι}
    (hi : pool.threads i = spawnDnsDiscovery config digs)
    (hthreads : ∀ j, j ≠ i → (pool.threads j).Makes RegistryCall.SparesDns)
    {schedule : List (ι ⊕ RegistryCall)} (hout : ∀ c, .inr c ∈ schedule → c.SparesDns)
    {view : String → Option SrvRecord} (hview : Tracks config view pool.shared)
    {spawned : List LeafEntry}
    (hend : (pool.steps Registry.exec schedule).threads i = .ret spawned) :
    Tracks config (digs.foldl track view) (pool.steps Registry.exec schedule).shared ∧
      ∀ a leaf, Text.startsWith dnsAliasPrefix a = true → (∀ dig ∈ digs, NamedBy a dig) →
        pool.shared.getLeaf a = some leaf →
          (pool.steps Registry.exec schedule).shared.getLeaf a = some leaf := by
  have hspawn : spawnDnsDiscovery config digs = Prog.forEach (dnsTurn config) digs := by
    refine if_neg fun hc => ?_
    rcases hc with hc | hc
    · rw [henabled] at hc
      cases hc
    · exact hname hc
  have hensures := ensures_dnsTurns digs hview
  rw [← hspawn, ← hi] at hensures
  exact Pool.ensured (fun c s hc => hc.kept s) hout hthreads hensures hend

def srvConfig : DnsDiscoveryConfig := { enabled := true, srvName := "_mcp._tcp.example" }

/-- The host is on port 80, and then on port 90. -/
def portMoves : List Dig := [.answered "0 0 80 a.\n", .answered "0 0 90 a.\n"]

/-- The DNS task, and a leaf that is deregistered meanwhile. -/
def dnsAndApi : Pool Bool RegistryCall RegistryCall.Reply (List LeafEntry) Registry where
  shared := Registry.empty
  threads := fun i => if i then spawnDnsDiscovery srvConfig portMoves else removeAlias "docs"

theorem first_port_tracked :
    ((dnsAndApi.steps Registry.exec [.inl true, .inl false, .inl true, .inr .aliases,
        .inl true]).shared.getLeaf "dns-a").map (·.config)
      = some (dnsServerConfig srvConfig "dns-a" { port := 80, target := "a" }) := by
  have hthreads : ∀ j, j ≠ true → (dnsAndApi.threads j).Makes RegistryCall.SparesDns := by
    intro j hj
    cases j with
    | true => exact absurd rfl hj
    | false =>
        refine ⟨fun a ha => ?_, fun _ => trivial⟩
        show "docs" ≠ a
        intro heq
        subst heq
        exact absurd ha (by decide)
  have hout : ∀ c, Sum.inr c ∈ ([.inl true, .inl false, .inl true, .inr .aliases, .inl true] :
      List (Bool ⊕ RegistryCall)) → c.SparesDns := by
    intro c hc
    simp at hc
    subst hc
    exact fun _ _ => trivial
  have hview : Tracks srvConfig (fun _ => none) dnsAndApi.shared := fun _ _ => rfl
  have htracked := (dns_tracked rfl (by decide) portMoves rfl hthreads hout hview rfl).1
  exact htracked "dns-a" (by decide)

end

end McpFederation
