/-
Keeping in step with DNS.

`reconcile` is given the records of one poll and should leave the registry with the leaves
they advertise.  For the aliases it does: `dns_converges` says which `dns-` aliases are
there afterwards, that nothing else is touched, and that the same records once more change
nothing.

For the leaves behind the aliases it does not.  An alias is made from the host name alone,
and an alias that is there is left alone.  So of two records with one alias only one gets
a leaf, and a record whose port has changed gets none.  `reaches_iff` says that a poll
makes all its records reachable exactly when neither happens.
-/
import Std.Data.String.ToNat
import McpFederation.Proofs.Effects

namespace McpFederation

/-! ### The records by alias -/

/-- The record kept for an alias is one of those that have it. -/
theorem desiredRecords_lookup {records : List SrvRecord} {a : String} {record : SrvRecord}
    (h : (desiredRecords records).lookup a = some record) :
    record ∈ records ∧ sanitizeAlias record.target = a := by
  have key : ∀ (l : List SrvRecord) (m : AList (fun _ : String => SrvRecord)),
      (l.foldl (fun m r => m.insert (sanitizeAlias r.target) r) m).lookup a = some record →
        (record ∈ l ∧ sanitizeAlias record.target = a) ∨ m.lookup a = some record := by
    intro l
    induction l with
    | nil => intro m hm; exact Or.inr hm
    | cons r rest ih =>
        intro m hm
        rcases ih _ hm with ⟨hmem, ha⟩ | hm
        · exact Or.inl ⟨List.mem_cons_of_mem _ hmem, ha⟩
        · by_cases ha : a = sanitizeAlias r.target
          · subst ha
            rw [AList.lookup_insert, Option.some.injEq] at hm
            subst hm
            exact Or.inl ⟨List.mem_cons_self, rfl⟩
          · rw [AList.lookup_insert_ne ha] at hm
            exact Or.inr hm
  rcases key records ∅ h with h | h
  · exact h
  · simp at h

theorem desiredRecords_isSome {records : List SrvRecord} {a : String} :
    ((desiredRecords records).lookup a).isSome = true ↔
      ∃ record ∈ records, sanitizeAlias record.target = a := by
  rw [AList.lookup_isSome, desiredRecords_keys]

namespace Registry

variable (le : LoadEnv) (r : Registry) (config : DnsDiscoveryConfig) (records : List SrvRecord)

/-! ### What a poll does to an alias -/

/-- Under the prefix: an alias that is not advertised is gone, and one that is has the leaf
it had, or else a new one for one of its records. -/
theorem getLeaf_dns {a : String} (ha : Text.startsWith dnsAliasPrefix a = true) :
    ((∀ record ∈ records, sanitizeAlias record.target ≠ a) ∧
        (r.apply le (.dns config records)).getLeaf a = none) ∨
      ∃ record ∈ records, sanitizeAlias record.target = a ∧
        ∃ leaf, (r.apply le (.dns config records)).getLeaf a = some leaf ∧
          (r.getLeaf a = some leaf ∨
            r.getLeaf a = none ∧ leaf.config = dnsServerConfig config a record) := by
  have heff := holds_dns le r config records a
  cases hlook : (desiredRecords records).lookup a with
  | none =>
      simp only [Op.effect, ha, if_true, hlook, Effect.Holds] at heff
      refine Or.inl ⟨fun record hrecord halias => ?_, heff⟩
      have hsome := desiredRecords_isSome.mpr ⟨record, hrecord, halias⟩
      rw [hlook] at hsome
      cases hsome
  | some record =>
      obtain ⟨hmem, halias⟩ := desiredRecords_lookup hlook
      refine Or.inr ⟨record, hmem, halias, ?_⟩
      cases hold : r.getLeaf a with
      | some old =>
          simp only [Op.effect, ha, if_true, hlook, hold, Option.isSome_some, Effect.Holds] at heff
          exact ⟨old, heff, Or.inl rfl⟩
      | none =>
          simp only [Op.effect, ha, if_true, hlook, hold, Option.isSome_none, Bool.false_eq_true,
            if_false, Effect.Holds] at heff
          obtain ⟨leaf, hleaf, hconfig, -⟩ := heff
          exact ⟨leaf, hleaf, Or.inr ⟨rfl, hconfig⟩⟩

/-- The aliases under the prefix are afterwards those that are advertised. -/
theorem mem_dnsAliases_dns {a : String} :
    a ∈ (r.apply le (.dns config records)).dnsAliases ↔
      ∃ record ∈ records, sanitizeAlias record.target = a := by
  rw [mem_dnsAliases]
  refine ⟨?_, ?_⟩
  · intro h
    obtain ⟨hsome, ha⟩ := h
    rcases getLeaf_dns le r config records ha with ⟨-, hnone⟩ | ⟨record, hmem, halias, -⟩
    · rw [hnone] at hsome
      cases hsome
    · exact ⟨record, hmem, halias⟩
  · intro h
    obtain ⟨record, hmem, rfl⟩ := h
    have ha := sanitizeAlias_prefix record.target
    rcases getLeaf_dns le r config records ha with ⟨hnone, -⟩ | ⟨-, -, -, leaf, hleaf, -⟩
    · exact absurd rfl (hnone record hmem)
    · rw [hleaf]
      exact ⟨rfl, ha⟩

/-- Other aliases are left alone. -/
theorem getLeaf_dns_of_other {a : String} (ha : Text.startsWith dnsAliasPrefix a = false) :
    (r.apply le (.dns config records)).getLeaf a = r.getLeaf a := by
  have heff := holds_dns le r config records a
  simp only [Op.effect, ha, Bool.false_eq_true, if_false] at heff
  exact heff

/-- So is an alias that was there and is still advertised. -/
theorem getLeaf_dns_of_known {record : SrvRecord} {leaf : LeafEntry} (hrecord : record ∈ records)
    (hleaf : r.getLeaf (sanitizeAlias record.target) = some leaf) :
    (r.apply le (.dns config records)).getLeaf (sanitizeAlias record.target) = some leaf := by
  have ha := sanitizeAlias_prefix record.target
  rcases getLeaf_dns le r config records ha with
    ⟨hnone, -⟩ | ⟨-, -, -, kept, hkept, hold | ⟨hold, -⟩⟩
  · exact absurd rfl (hnone record hrecord)
  · rw [hkept, ← hold, hleaf]
  · rw [hleaf] at hold
    cases hold

/-! ### The same records once more -/

/-- A poll that advertises exactly the `dns-` aliases that are there does nothing. -/
theorem run_dnsReconcile_idle
    (h : ∀ a, (∃ record ∈ records, sanitizeAlias record.target = a) ↔ a ∈ r.dnsAliases) :
    (dnsReconcile config records).run exec r = ([], r) := by
  have hadd : (Prog.forEach (dnsAdd config r.dnsAliases) (desiredRecords records).entries).run
      exec r = ([], r) := by
    refine Prog.run_forEach_idle exec fun entry hentry => ?_
    have hknown : entry.1 ∈ r.dnsAliases :=
      (h entry.1).mp (desiredRecords_keys.mp (List.mem_map_of_mem hentry))
    rw [dnsAdd, if_pos hknown]
    rfl
  have hgone : r.dnsAliases.filter (· ∉ (desiredRecords records).keys) = [] := by
    refine List.filter_eq_nil_iff.mpr fun a ha => ?_
    have hmem : a ∈ (desiredRecords records).keys :=
      AList.mem_keys.mp (desiredRecords_keys.mpr ((h a).mpr ha))
    simpa using hmem
  show (Prog.forEach (dnsAdd config r.dnsAliases) (desiredRecords records).entries >>= _).run
    exec r = _
  rw [Prog.run_bind, hadd]
  show (Prog.forEach removeAlias
    (r.dnsAliases.filter (· ∉ (desiredRecords records).keys)) >>= _).run exec r = _
  rw [hgone]
  rfl

/--
**A poll converges.**  Afterwards the aliases with the prefix are those of the records;
every other alias, and every one that was there and is still advertised, has the entry it
had; and another poll with the same records, in any order and number, does nothing.
-/
theorem dns_converges :
    (∀ a, Text.startsWith dnsAliasPrefix a = true →
      (a ∈ (r.apply le (.dns config records)).aliases ↔
        ∃ record ∈ records, sanitizeAlias record.target = a)) ∧
    (∀ a, Text.startsWith dnsAliasPrefix a = false →
      (r.apply le (.dns config records)).getLeaf a = r.getLeaf a) ∧
    (∀ record ∈ records, ∀ leaf, r.getLeaf (sanitizeAlias record.target) = some leaf →
      (r.apply le (.dns config records)).getLeaf (sanitizeAlias record.target) = some leaf) ∧
    ∀ again : List SrvRecord, (∀ record, record ∈ again ↔ record ∈ records) →
      ((Op.dns config again).program le).run exec (r.apply le (.dns config records))
        = ([], r.apply le (.dns config records)) := by
  refine ⟨fun a ha => ?_, fun a ha => getLeaf_dns_of_other le r config records ha,
    fun record hrecord leaf hleaf => getLeaf_dns_of_known le r config records hrecord hleaf,
    fun again hsame => ?_⟩
  · rw [← mem_dnsAliases_dns le r config records, dnsAliases, List.mem_filter]
    exact (and_iff_left ha).symm
  · refine run_dnsReconcile_idle _ config again fun a => ?_
    rw [mem_dnsAliases_dns]
    simp only [hsame]

end Registry

/-! ### Leaves and records -/

/-- The URL at which a record is reached. -/
def SrvRecord.url (config : DnsDiscoveryConfig) (record : SrvRecord) : String :=
  config.scheme ++ "://" ++ record.target ++ ":" ++ toString record.port.toNat ++ config.urlPath

/-- A URL says which record it is the URL of. -/
theorem SrvRecord.url_inj {config : DnsDiscoveryConfig} {record record' : SrvRecord}
    (h : record.url config = record'.url config) : record = record' := by
  have hdigits : ∀ n : Nat, ':' ∉ (toString n).toList := Text.not_mem_toString rfl
  have htail : record.target.toList ++ ':' :: (toString record.port.toNat).toList
      = record'.target.toList ++ ':' :: (toString record'.port.toNat).toList := by
    rw [url, url, String.append_left_inj] at h
    have hlists := congrArg String.toList h
    simp only [String.toList_append, List.append_assoc, List.append_cancel_left_eq] at hlists
    exact hlists
  -- The port has no colon, so the last one is in the same place in both.
  rcases Text.append_cons_eq_append_cons.mp htail with
    ⟨htarget, hport⟩ | ⟨m, -, hport⟩ | ⟨m, -, hport⟩
  · have hnat := Nat.repr_injective (String.toList_inj.mp hport)
    cases record
    cases record'
    simp_all [String.toList_inj, UInt16.toNat_inj]
  · exact absurd (hport ▸ List.mem_append_right _ List.mem_cons_self) (hdigits record.port.toNat)
  · exact absurd (hport ▸ List.mem_append_right _ List.mem_cons_self) (hdigits record'.port.toNat)

/-- The leaves under the prefix are at the URLs of the records, and at no others. -/
def Registry.Reaches (r : Registry) (config : DnsDiscoveryConfig) (records : List SrvRecord) :
    Prop :=
  ∀ url, (∃ a leaf, Text.startsWith dnsAliasPrefix a = true ∧ r.getLeaf a = some leaf ∧
    leaf.config.url = url) ↔ ∃ record ∈ records, record.url config = url

/-- Every leaf under the prefix was created by an earlier poll. -/
def Registry.DnsCreated (r : Registry) (config : DnsDiscoveryConfig) : Prop :=
  ∀ a leaf, Text.startsWith dnsAliasPrefix a = true → r.getLeaf a = some leaf →
    ∃ record : SrvRecord, sanitizeAlias record.target = a ∧
      leaf.config = dnsServerConfig config a record

/-- No two records share an alias, and a leaf that is there under the alias of a record is
at the record's URL. -/
structure Registry.Separate (r : Registry) (config : DnsDiscoveryConfig)
    (records : List SrvRecord) : Prop where
  alone : ∀ record ∈ records, ∀ record' ∈ records,
    sanitizeAlias record.target = sanitizeAlias record'.target → record = record'
  current : ∀ record ∈ records, ∀ leaf,
    r.getLeaf (sanitizeAlias record.target) = some leaf → leaf.config.url = record.url config

namespace Registry

variable {le : LoadEnv} {r : Registry} {config : DnsDiscoveryConfig} {records : List SrvRecord}

/-- Then every record has its leaf, whoever created those that were there before. -/
theorem Separate.reaches (h : r.Separate config records) :
    (r.apply le (.dns config records)).Reaches config records := by
  intro url
  refine ⟨?_, ?_⟩
  · intro hurl
    obtain ⟨a, leaf, ha, hleaf, rfl⟩ := hurl
    rcases getLeaf_dns le r config records ha with
      ⟨-, hnone⟩ | ⟨record, hmem, rfl, kept, hkept, hor⟩
    · rw [hnone] at hleaf
      cases hleaf
    · rw [hkept, Option.some.injEq] at hleaf
      subst hleaf
      refine ⟨record, hmem, ?_⟩
      rcases hor with hold | ⟨-, hconfig⟩
      · exact (h.current record hmem kept hold).symm
      · rw [hconfig]
        rfl
  · intro hurl
    obtain ⟨record, hmem, rfl⟩ := hurl
    have ha := sanitizeAlias_prefix record.target
    rcases getLeaf_dns le r config records ha with
      ⟨hnone, -⟩ | ⟨record', hmem', halias, leaf, hleaf, hor⟩
    · exact absurd rfl (hnone record hmem)
    · refine ⟨_, leaf, ha, hleaf, ?_⟩
      rcases hor with hold | ⟨-, hconfig⟩
      · exact h.current record hmem leaf hold
      · rw [hconfig, h.alone record' hmem' record hmem halias]
        rfl

/-- If all records are reached, each is reached under its own alias. -/
theorem Reaches.own (hcreated : r.DnsCreated config)
    (h : (r.apply le (.dns config records)).Reaches config records) {record : SrvRecord}
    (hmem : record ∈ records) :
    ∃ leaf, (r.apply le (.dns config records)).getLeaf (sanitizeAlias record.target) = some leaf ∧
      leaf.config.url = record.url config := by
  obtain ⟨a, leaf, ha, hleaf, hurl⟩ := (h _).mpr ⟨record, hmem, rfl⟩
  -- The leaf was made for some record with the alias `a`, which can only be this one.
  have hmade : ∃ made : SrvRecord, sanitizeAlias made.target = a ∧
      leaf.config.url = made.url config := by
    rcases getLeaf_dns le r config records ha with
      ⟨-, hnone⟩ | ⟨made, -, halias, kept, hkept, hor⟩
    · rw [hnone] at hleaf
      cases hleaf
    · rw [hkept, Option.some.injEq] at hleaf
      subst hleaf
      rcases hor with hold | ⟨-, hconfig⟩
      · obtain ⟨earlier, hearlier, hconfig⟩ := hcreated a kept ha hold
        exact ⟨earlier, hearlier, congrArg ServerConfig.url hconfig⟩
      · exact ⟨made, halias, congrArg ServerConfig.url hconfig⟩
  obtain ⟨made, rfl, hmadeUrl⟩ := hmade
  have hsame : made = record := SrvRecord.url_inj (hmadeUrl.symm.trans hurl)
  subst hsame
  exact ⟨leaf, hleaf, hurl⟩

/-- So two records under one alias, or a record that has moved, are not all reached. -/
theorem Reaches.separate (hcreated : r.DnsCreated config)
    (h : (r.apply le (.dns config records)).Reaches config records) :
    r.Separate config records := by
  refine ⟨fun record hmem record' hmem' halias => ?_, fun record hmem leaf hleaf => ?_⟩
  · obtain ⟨leaf, hleaf, hurl⟩ := h.own hcreated hmem
    obtain ⟨leaf', hleaf', hurl'⟩ := h.own hcreated hmem'
    rw [halias, hleaf', Option.some.injEq] at hleaf
    rw [hleaf] at hurl'
    exact SrvRecord.url_inj (hurl.symm.trans hurl')
  · obtain ⟨kept, hkept, hurl⟩ := h.own hcreated hmem
    rw [getLeaf_dns_of_known le r config records hmem hleaf, Option.some.injEq] at hkept
    rw [hkept]
    exact hurl

/--
**When a poll makes its records reachable.**  In a registry whose `dns-` leaves come from
earlier polls, the leaves are afterwards at exactly the URLs of the records if and only if
no two records share an alias, and no record has moved away from the leaf its alias has.
-/
theorem reaches_iff (le : LoadEnv) (r : Registry) (config : DnsDiscoveryConfig)
    (records : List SrvRecord) (hcreated : r.DnsCreated config) :
    (r.apply le (.dns config records)).Reaches config records ↔ r.Separate config records :=
  ⟨Reaches.separate hcreated, Separate.reaches⟩

theorem dnsCreated_empty (config : DnsDiscoveryConfig) : empty.DnsCreated config := by
  intro a leaf _ hleaf
  cases hleaf

/-- A poll leaves only leaves of polls. -/
theorem DnsCreated.dns (h : r.DnsCreated config) (le : LoadEnv) (records : List SrvRecord) :
    (r.apply le (.dns config records)).DnsCreated config := by
  intro a leaf ha hleaf
  rcases getLeaf_dns le r config records ha with ⟨-, hnone⟩ | ⟨record, -, halias, kept, hkept, hor⟩
  · rw [hnone] at hleaf
    cases hleaf
  · rw [hkept, Option.some.injEq] at hleaf
    subst hleaf
    rcases hor with hold | ⟨-, hconfig⟩
    · exact h a kept ha hold
    · exact ⟨record, halias, hconfig⟩

end Registry

/-! ### Two hosts -/

def leafOne : SrvRecord := ⟨8080, "leaf-1.example.com"⟩

def leafTwo : SrvRecord := ⟨8080, "leaf-2.example.com"⟩

/-- A registry after a poll that found the one host. -/
def polled : Registry := Registry.empty.apply wikiLoad (.dns {} [leafOne])

theorem polled_created : polled.DnsCreated {} :=
  (Registry.dnsCreated_empty {}).dns wikiLoad [leafOne]

theorem polled_getLeaf :
    polled.getLeaf "dns-leaf-1-example-com"
      = some ⟨0, dnsServerConfig {} "dns-leaf-1-example-com" leafOne⟩ := by
  decide

/-- The other host turns up. -/
theorem second_host_reached :
    polled.DnsCreated {} ∧
      (polled.apply wikiLoad (.dns {} [leafOne, leafTwo])).Reaches {} [leafOne, leafTwo] := by
  refine ⟨polled_created,
    (Registry.reaches_iff wikiLoad polled {} [leafOne, leafTwo] polled_created).mpr ⟨?_, ?_⟩⟩
  · decide
  · intro record hmem leaf hleaf
    rcases List.mem_pair.mp hmem with rfl | rfl
    · have halias : sanitizeAlias leafOne.target = "dns-leaf-1-example-com" := by decide
      rw [halias, polled_getLeaf, Option.some.injEq] at hleaf
      rw [← hleaf]
      rfl
    · have hnone : polled.getLeaf (sanitizeAlias leafTwo.target) = none := by decide
      rw [hnone] at hleaf
      cases hleaf

/-- A host that serves two ports gets one leaf, and a host that changes its port keeps the
leaf at the old one. -/
theorem ports_not_reached :
    Registry.empty.DnsCreated {} ∧
      ¬ (Registry.empty.apply wikiLoad (.dns {} [leafOne, ⟨9090, leafOne.target⟩])).Reaches {}
        [leafOne, ⟨9090, leafOne.target⟩] ∧
      polled.DnsCreated {} ∧
      ¬ (polled.apply wikiLoad (.dns {} [⟨9090, leafOne.target⟩])).Reaches {}
        [⟨9090, leafOne.target⟩] := by
  refine ⟨Registry.dnsCreated_empty {}, fun h => ?_, polled_created, fun h => ?_⟩
  · have halone := (h.separate (Registry.dnsCreated_empty {})).alone
    revert halone
    decide
  · have hcurrent := (h.separate polled_created).current ⟨9090, leafOne.target⟩
      List.mem_cons_self ⟨0, dnsServerConfig {} "dns-leaf-1-example-com" leafOne⟩
    have halias : sanitizeAlias leafOne.target = "dns-leaf-1-example-com" := by decide
    rw [halias] at hcurrent
    exact absurd (hcurrent polled_getLeaf) (by decide)

end McpFederation
