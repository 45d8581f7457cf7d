/-
What texts can do to the status page.

The page shows texts that nobody has checked: a registrant may choose any alias, URL and
tags.  They are escaped by five replacements, each of which runs over what the one before
it has written.  `html_escape` is one of the escapings of `Lib/Escape`, since the ampersand
comes first and no entity has a character in it that is replaced later; so it can be undone,
and an escaped text is nothing but text.  `htmlEscape_faithful` puts the two together: a
page is read as the tags that are written in the source, with the texts between them.
-/
import McpFederation.Lib.Html
import McpFederation.Model.Status

namespace McpFederation

/-- What is written for a character. -/
def entity : Char → String
  | '&' => "&amp;"
  | '<' => "&lt;"
  | '>' => "&gt;"
  | '"' => "&quot;"
  | '\'' => "&#39;"
  | c => String.singleton c

/-- Read the five entities back; everything else stays as it is. -/
def htmlDecode (s : String) : String := String.ofList (Html.entities.unescape s.toList)

/-! ### The escaping -/

theorem toList_htmlEscape (s : String) :
    (htmlEscape s).toList = Html.entities.escape s.toList := by
  rw [← Html.entities.replaceEach_table]
  simp only [htmlEscape, Text.replace, String.toList_ofList]
  rfl

theorem code_entities (c : Char) : Escape.code Html.entities.table c = (entity c).toList := by
  unfold entity
  split
  · decide
  · decide
  · decide
  · decide
  · decide
  · next h₁ h₂ h₃ h₄ h₅ =>
      simp only [Escaping.table, Escaping.names, Html.entities, List.map_cons, List.map_nil,
        Escape.code]
      rw [if_neg h₁, if_neg h₂, if_neg h₃, if_neg h₄, if_neg h₅, String.toList_singleton]

theorem htmlDecode_htmlEscape (s : String) : htmlDecode (htmlEscape s) = s := by
  rw [htmlDecode, toList_htmlEscape, Html.entities.unescape_escape, String.ofList_toList]

theorem lt_notMem_htmlEscape (s : String) : '<' ∉ (htmlEscape s).toList := by
  rw [toList_htmlEscape]
  exact Html.entities.not_mem_escape (q := ('<', ['l', 't', ';'])) (by decide) s.toList

/-! ### The page -/

/-- A cell of a row. -/
def statusCell (opening : String) (content : List Html.Token) : List Html.Token :=
  Html.tag opening ++ content ++ Html.tag "/td"

/-- What a row is read as. -/
def statusRowTokens (config : ServerConfig) (cells : LeafCells) (now : Nat) : List Html.Token :=
  Html.tag "tr"
    ++ statusCell "td" (Html.text (htmlEscape config.aliasName))
    ++ statusCell "td" (Html.tag "code" ++ Html.text (htmlEscape config.url) ++ Html.tag "/code")
    ++ statusCell ("td style=\"color:" ++ cells.health.color ++ ";font-weight:bold\"")
      (Html.text cells.health.label)
    ++ statusCell "td" (Html.text (toString cells.cachedTools.length))
    ++ statusCell "td" (Html.text (shownTags config.tags))
    ++ statusCell "td" (Html.text (shownLastCheck cells.lastHealthCheck now))
    ++ Html.tag "/tr"

theorem toList_statusRow (config : ServerConfig) (cells : LeafCells) (now : Nat) :
    (statusRow config cells now).toList = Html.write (statusRowTokens config cells now) := by
  unfold statusRow
  simp only [statusRowTokens, statusCell, Html.write_append, Html.write_tag, Html.write_text,
    String.toList_append, String.reduceToList, List.append_assoc, List.cons_append,
    List.nil_append]

theorem lt_notMem_shownTags (tags : List String) : '<' ∉ (shownTags tags).toList := by
  unfold shownTags
  split
  · decide
  · exact lt_notMem_htmlEscape _

theorem lt_notMem_shownLastCheck (lastHealthCheck : Option Nat) (now : Nat) :
    '<' ∉ (shownLastCheck lastHealthCheck now).toList := by
  cases lastHealthCheck with
  | none =>
      rw [shownLastCheck]
      decide
  | some instant =>
      rw [shownLastCheck, String.toList_append, List.mem_append, not_or]
      exact ⟨Text.not_mem_toString rfl _, by decide⟩

theorem sound_statusCell {opening : String} {content : List Html.Token}
    (hopening : '>' ∉ opening.toList) (hcontent : ∀ t ∈ content, t.Sound) :
    ∀ t ∈ statusCell opening content, t.Sound := by
  simp only [statusCell, List.forall_mem_append]
  exact ⟨⟨Html.sound_tag hopening, hcontent⟩, Html.sound_tag (by decide)⟩

/-- No text of a row opens a tag. -/
theorem sound_statusRowTokens (config : ServerConfig) (cells : LeafCells) (now : Nat) :
    ∀ t ∈ statusRowTokens config cells now, t.Sound := by
  have hurl : ∀ t ∈ Html.tag "code" ++ Html.text (htmlEscape config.url) ++ Html.tag "/code",
      t.Sound := by
    simp only [List.forall_mem_append]
    exact ⟨⟨Html.sound_tag (by decide), Html.sound_text (lt_notMem_htmlEscape _)⟩,
      Html.sound_tag (by decide)⟩
  have hcolor : '>' ∉ ("td style=\"color:" ++ cells.health.color
      ++ ";font-weight:bold\"").toList := by
    cases cells.health <;> decide
  have hlabel : '<' ∉ cells.health.label.toList := by
    cases cells.health <;> decide
  simp only [statusRowTokens, List.forall_mem_append]
  refine ⟨⟨⟨⟨⟨⟨⟨Html.sound_tag (by decide), ?_⟩, ?_⟩, ?_⟩, ?_⟩, ?_⟩, ?_⟩,
    Html.sound_tag (by decide)⟩
  · exact sound_statusCell (by decide) (Html.sound_text (lt_notMem_htmlEscape _))
  · exact sound_statusCell (by decide) hurl
  · exact sound_statusCell hcolor (Html.sound_text hlabel)
  · exact sound_statusCell (by decide) (Html.sound_text (Text.not_mem_toString rfl _))
  · exact sound_statusCell (by decide) (Html.sound_text (lt_notMem_shownTags _))
  · exact sound_statusCell (by decide) (Html.sound_text (lt_notMem_shownLastCheck _ _))

/-- The rows come after a tag, in the text. -/
theorem placeAfter_statusHead (leafCount : Nat) :
    Html.placeAfter none (statusHead leafCount).toList = none := by
  unfold statusHead
  have hbody : "<tbody>\n".toList = ['<', 't', 'b', 'o', 'd', 'y'] ++ ['>'] ++ ['\n'] := by
    decide
  rw [String.toList_append, hbody, ← List.append_assoc, ← List.append_assoc,
    Html.placeAfter_append, Html.placeAfter_gt]
  rfl

theorem toList_renderStatusHtml (w : Leaves) (now : Nat) :
    (renderStatusHtml w now).toList
      = (statusHead w.registry.allLeaves.length).toList
        ++ (Html.write (w.registry.allLeaves.flatMap fun leaf =>
            statusRowTokens leaf.config (w.cellsOf leaf) now)
          ++ statusTail.toList) := by
  rw [renderStatusHtml, String.toList_append, String.toList_append, String.toList_join,
    List.flatMap_map, Html.write, List.flatMap_assoc, List.append_assoc]
  simp only [toList_statusRow, Html.write]

/-- A page is read as what the source has written, with the rows in it. -/
theorem read_renderStatusHtml (w : Leaves) (now : Nat) :
    Html.read (renderStatusHtml w now).toList
      = Html.read (statusHead w.registry.allLeaves.length).toList
        ++ (w.registry.allLeaves.flatMap fun leaf =>
            statusRowTokens leaf.config (w.cellsOf leaf) now)
        ++ Html.read statusTail.toList := by
  have hsound : ∀ t ∈ w.registry.allLeaves.flatMap fun leaf =>
      statusRowTokens leaf.config (w.cellsOf leaf) now, t.Sound := by
    intro t ht
    obtain ⟨leaf, -, ht⟩ := List.mem_flatMap.mp ht
    exact sound_statusRowTokens _ _ _ t ht
  rw [toList_renderStatusHtml, Html.read_append (placeAfter_statusHead _),
    Html.read_write hsound, List.append_assoc]

/--
**Escaping is a faithful encoding.**  The five replacements are one substitution, character
by character; what they leave has no `<`, `>` or quote, and a `&` only at the front of an
entity; and decoding gives back the text.  So the page, whatever texts the leaves come with,
is read as the tags of the source, and the texts are text.
-/
theorem htmlEscape_faithful :
    (∀ s : String, (htmlEscape s).toList = s.toList.flatMap fun c => (entity c).toList) ∧
    (∀ s : String, ∀ c ∈ ['<', '>', '"', '\''], c ∉ (htmlEscape s).toList) ∧
    (∀ (s : String) (before after : List Char),
      (htmlEscape s).toList = before ++ '&' :: after →
        ∃ c ∈ ['&', '<', '>', '"', '\''], (entity c).toList <+: '&' :: after) ∧
    (∀ s : String, htmlDecode (htmlEscape s) = s) ∧
    Function.Injective htmlEscape ∧
    ∀ (w : Leaves) (now : Nat),
      Html.read (renderStatusHtml w now).toList
        = Html.read (statusHead w.registry.allLeaves.length).toList
          ++ (w.registry.allLeaves.flatMap fun leaf =>
              statusRowTokens leaf.config (w.cellsOf leaf) now)
          ++ Html.read statusTail.toList := by
  refine ⟨?_, ?_, ?_, htmlDecode_htmlEscape,
    Function.LeftInverse.injective htmlDecode_htmlEscape, read_renderStatusHtml⟩
  · intro s
    rw [toList_htmlEscape, Escaping.escape]
    exact List.flatMap_congr fun c _ => code_entities c
  · intro s c hc
    have hothers : c ∈ Html.entities.others.map Prod.fst := hc
    obtain ⟨q, hq, rfl⟩ := List.mem_map.mp hothers
    rw [toList_htmlEscape]
    exact Html.entities.not_mem_escape hq s.toList
  · intro s before after h
    have hnames : ∀ p ∈ Html.entities.names,
        p.1 ∈ ['&', '<', '>', '"', '\''] ∧ (entity p.1).toList = '&' :: p.2 := by decide
    rw [toList_htmlEscape] at h
    obtain ⟨p, hp, hafter⟩ := Html.entities.mark_escape h
    refine ⟨p.1, (hnames p hp).1, ?_⟩
    rw [(hnames p hp).2]
    exact List.cons_prefix_cons.mpr ⟨rfl, hafter⟩

end McpFederation
