/-
Two readers of server-sent events.

A leaf sends events in two places: on the notification stream, and as the body of an answer
to a POST.  `run_notification_stream` and `parse_sse_body` read the same framing, the one
byte by byte and ending an event at every blank line, the other line by line over the whole
body, with no eye for blank lines.

For what a leaf is expected to send they agree: `decode_encode` takes any events, any line
endings, anything in between and any chunks, and gets the events back from the stream, and
the payload of a single event from the body.  For a body with more than one event they do
not: `parse_sse_body` is made for one event, and joins the payloads of all.  `handed_iff`
says when what it joins is still the payload of an event of the stream.
-/
import McpFederation.Proofs.Streams

namespace McpFederation

/-! ### Joining payloads -/

/-- Lines joined by LF. -/
def joinLines (lines : List (List Char)) : List Char := ['\n'].intercalate lines

/-- With something in the buffer, every further payload is joined to it. -/
theorem foldl_joinPayload {data : List Char} (h : data ≠ []) (payloads : List (List Char)) :
    payloads.foldl joinPayload data = joinLines (data :: payloads) := by
  induction payloads generalizing data with
  | nil => simp [joinLines]
  | cons p rest ih =>
      have hne : data ++ '\n' :: p ≠ [] := by simp
      rw [List.foldl_cons, joinPayload, if_neg h, ih hne]
      cases rest <;> simp [joinLines]

/-- From the start: payload lines are dropped until there is something in the buffer. -/
theorem foldl_joinPayload_nil (payloads : List (List Char)) :
    payloads.foldl joinPayload [] = joinLines (payloads.dropWhile (· = [])) := by
  induction payloads with
  | nil => rfl
  | cons p rest ih =>
      rw [List.foldl_cons, joinPayload, if_pos rfl]
      by_cases hp : p = []
      · rw [List.dropWhile_cons_of_pos (by simpa using hp), hp, ih]
      · rw [List.dropWhile_cons_of_neg (by simpa using hp), foldl_joinPayload hp]

/-- Adding lines is joining the payloads of those that have one. -/
theorem foldl_addLine (lines : List (List Char)) : ∀ data : List Char,
    lines.foldl addLine data = (lines.filterMap payloadOf).foldl joinPayload data := by
  induction lines with
  | nil => intro data; rfl
  | cons line rest ih =>
      intro data
      rw [List.foldl_cons, ih, addLine]
      cases hp : payloadOf line with
      | none => rw [List.filterMap_cons_none hp]
      | some payload => rw [List.filterMap_cons_some hp, List.foldl_cons]

/-! ### What the body parser reads -/

/-- The body parser adds every line, less a CR at its end. -/
theorem sseData_eq (lines : List (List Char)) : ∀ data : List Char,
    sseData lines data = (lines.map Text.stripCr).foldl addLine data := by
  induction lines with
  | nil => intro data; rfl
  | cons raw rest ih =>
      intro data
      rw [List.map_cons, List.foldl_cons, ← ih, sseData]
      show (if Text.stripCr raw = [] ∨ (Text.stripCr raw).head? = some ':' then _ else _) = _
      split
      · next h =>
          have hnone : payloadOf (Text.stripCr raw) = none := by
            rcases h with h | h
            · rw [h]
              rfl
            · exact payloadOf_comment h
          rw [addLine, hnone]
      · unfold addLine payloadOf joinPayload Text.stripCr
        cases Text.stripChars ['d', 'a', 't', 'a', ':'] ((Text.stripLast '\r' raw).getD raw) <;> rfl

/-- The text that `parse_sse_body` hands to the JSON decoder, if any. -/
def handed (body : String) : Option String :=
  let data := sseData (Text.linesChars body.toList) []
  if data = [] then none else some (String.ofList data)

theorem parseSseBody_eq (env : ClientEnv) (body : String) :
    parseSseBody env body = (handed body).bind fun text => env.jsonFromSlice text.toUTF8 := by
  unfold parseSseBody handed
  dsimp only
  split <;> rfl

/-! ### What a leaf sends -/

/-- An event: payload lines without CR and LF, the first of them not empty. -/
structure SseEvent where
  first : List Char
  more : List (List Char)
  first_ne : first ≠ []
  plain : ∀ line ∈ first :: more, Text.Plain line

def SseEvent.payloads (e : SseEvent) : List (List Char) := e.first :: e.more

/-- The payload of an event. -/
def SseEvent.text (e : SseEvent) : String := String.ofList (joinLines e.payloads)

/-- The line that carries a payload line. -/
def dataLine (payload : List Char) : List Char := ['d', 'a', 't', 'a', ':', ' '] ++ payload

/-- A comment, or a field other than `data`. -/
structure OtherLine (line : List Char) : Prop where
  plain : Text.Plain line
  ne : line ≠ []
  other : Text.stripChars ['d', 'a', 't', 'a', ':'] line = none

/-- The lines of one event: its payload lines in order, with other lines anywhere. -/
inductive Block : List (List Char) → List (List Char) → Prop
  | nil : Block [] []
  | data {payload : List Char} {payloads lines : List (List Char)} (h : Block payloads lines) :
      Block (payload :: payloads) (dataLine payload :: lines)
  | other {line : List Char} {payloads lines : List (List Char)} (hline : OtherLine line)
      (h : Block payloads lines) : Block payloads (line :: lines)

/-- The lines of a list of events: a blank line after each, which the last one may lack, and
between them any number of blank and other lines. -/
inductive Renders : List SseEvent → List (List Char) → Prop
  | nil : Renders [] []
  | blank {events : List SseEvent} {lines : List (List Char)} (h : Renders events lines) :
      Renders events ([] :: lines)
  | other {line : List Char} {events : List SseEvent} {lines : List (List Char)}
      (hline : OtherLine line) (h : Renders events lines) : Renders events (line :: lines)
  | event {e : SseEvent} {events : List SseEvent} {block lines : List (List Char)}
      (hblock : Block e.payloads block) (h : Renders events lines) :
      Renders (e :: events) (block ++ [] :: lines)
  | last {e : SseEvent} {block : List (List Char)} (hblock : Block e.payloads block) :
      Renders [e] block

/-- The text is the events in these lines, with LF and CRLF mixed freely. -/
def Encodes (events : List SseEvent) (body : String) : Prop :=
  ∃ lines, Renders events lines ∧ Text.Spells lines body.toList

theorem payloadOf_dataLine (payload : List Char) : payloadOf (dataLine payload) = some payload := by
  simp [payloadOf, dataLine, Text.stripChars]

theorem OtherLine.payloadOf_eq {line : List Char} (h : OtherLine line) : payloadOf line = none := by
  rw [payloadOf, h.other]
  rfl

theorem Block.plain {payloads lines : List (List Char)} (h : Block payloads lines)
    (hplain : ∀ p ∈ payloads, Text.Plain p) : ∀ line ∈ lines, Text.Plain line := by
  induction h with
  | nil => intro line hl; cases hl
  | @data payload payloads lines _ ih =>
      intro line hl
      rcases List.mem_cons.mp hl with rfl | hl
      · obtain ⟨hcr, hlf⟩ := hplain payload List.mem_cons_self
        exact ⟨by simp [dataLine, hcr], by simp [dataLine, hlf]⟩
      · exact ih (fun p hp => hplain p (List.mem_cons_of_mem _ hp)) line hl
  | other hline _ ih =>
      intro line hl
      rcases List.mem_cons.mp hl with rfl | hl
      · exact hline.plain
      · exact ih hplain line hl

theorem Renders.plain {events : List SseEvent} {lines : List (List Char)}
    (h : Renders events lines) : ∀ line ∈ lines, Text.Plain line := by
  have hblank : Text.Plain [] := by decide
  induction h with
  | nil => intro line hl; cases hl
  | blank _ ih =>
      intro line hl
      rcases List.mem_cons.mp hl with rfl | hl
      · exact hblank
      · exact ih line hl
  | other hline _ ih =>
      intro line hl
      rcases List.mem_cons.mp hl with rfl | hl
      · exact hline.plain
      · exact ih line hl
  | @event e events block lines hb _ ih =>
      intro line hl
      rcases List.mem_append.mp hl with hl | hl
      · exact hb.plain e.plain line hl
      · rcases List.mem_cons.mp hl with rfl | hl
        · exact hblank
        · exact ih line hl
  | @last e block hb => exact hb.plain e.plain

/-! ### What is read of it -/

theorem SseEvent.foldl_payloads (e : SseEvent) :
    e.payloads.foldl joinPayload [] = joinLines e.payloads := by
  rw [payloads, List.foldl_cons, joinPayload, if_pos rfl, foldl_joinPayload e.first_ne]

theorem SseEvent.joinLines_payloads_ne (e : SseEvent) : joinLines e.payloads ≠ [] := by
  have hfirst := e.first_ne
  cases hmore : e.more <;> simp [joinLines, payloads, hmore, hfirst]

theorem SseEvent.flushed_payloads (e : SseEvent) : flushed (joinLines e.payloads) = [e.text] :=
  if_neg e.joinLines_payloads_ne

/-- The lines of an event fill the buffer with its payload. -/
theorem Block.lineEvents_append {payloads lines : List (List Char)} (h : Block payloads lines)
    (rest : List (List Char)) : ∀ data : List Char,
      lineEvents (lines ++ rest) data = lineEvents rest (payloads.foldl joinPayload data) := by
  induction h with
  | nil => intro data; rfl
  | @data payload payloads lines _ ih =>
      intro data
      have hne : dataLine payload ≠ [] := by simp [dataLine]
      rw [List.cons_append, lineEvents, if_neg hne, addLine, payloadOf_dataLine, List.foldl_cons]
      exact ih _
  | @other line payloads lines hline _ ih =>
      intro data
      rw [List.cons_append, lineEvents, if_neg hline.ne, addLine, hline.payloadOf_eq]
      exact ih _

/-- **The events of their lines** are the events. -/
theorem Renders.lineEvents_eq {events : List SseEvent} {lines : List (List Char)}
    (h : Renders events lines) : lineEvents lines [] = events.map SseEvent.text := by
  induction h with
  | nil => rfl
  | blank _ ih => exact ih
  | other hline _ ih =>
      rw [lineEvents, if_neg hline.ne, addLine, hline.payloadOf_eq]
      exact ih
  | @event e events block lines hb _ ih =>
      rw [hb.lineEvents_append, e.foldl_payloads, lineEvents, if_pos rfl, e.flushed_payloads, ih]
      rfl
  | @last e block hb =>
      rw [← List.append_nil block, hb.lineEvents_append, e.foldl_payloads, lineEvents,
        e.flushed_payloads]
      rfl

theorem Block.filterMap_payloadOf {payloads lines : List (List Char)} (h : Block payloads lines) :
    lines.filterMap payloadOf = payloads := by
  induction h with
  | nil => rfl
  | data _ ih => rw [List.filterMap_cons_some (payloadOf_dataLine _), ih]
  | other hline _ ih => rw [List.filterMap_cons_none hline.payloadOf_eq, ih]

/-- All payload lines, whatever event they belong to. -/
theorem Renders.filterMap_payloadOf {events : List SseEvent} {lines : List (List Char)}
    (h : Renders events lines) : lines.filterMap payloadOf = events.flatMap SseEvent.payloads := by
  induction h with
  | nil => rfl
  | blank _ ih => rw [List.filterMap_cons_none rfl, ih]
  | other hline _ ih => rw [List.filterMap_cons_none hline.payloadOf_eq, ih]
  | @event e events block lines hb _ ih =>
      rw [List.filterMap_append, hb.filterMap_payloadOf, List.filterMap_cons_none rfl, ih,
        List.flatMap_cons]
  | @last e block hb => rw [hb.filterMap_payloadOf, List.flatMap_singleton]

theorem stripCr_plain {lines : List (List Char)} (h : ∀ line ∈ lines, line.getLast? ≠ some '\r') :
    lines.map Text.stripCr = lines := by
  rw [List.map_congr_left fun line hl => Text.stripCr_of_getLast? (h line hl), List.map_id']

/-- The body parser gets the payload of a single event. -/
theorem handed_of_encodes {e : SseEvent} {body : String} (h : Encodes [e] body) :
    handed body = some e.text := by
  obtain ⟨lines, hrenders, hspells⟩ := h
  have hplain := hrenders.plain
  have hdata : sseData (Text.linesChars body.toList) [] = joinLines e.payloads := by
    rw [hspells.linesChars_eq hplain, sseData_eq,
      stripCr_plain fun line hl hc => (hplain line hl).1 (List.mem_of_getLast? hc),
      foldl_addLine, hrenders.filterMap_payloadOf, List.flatMap_singleton, e.foldl_payloads]
  unfold handed
  rw [hdata]
  exact if_neg e.joinLines_payloads_ne

/--
**Decoding inverts encoding.**  Events in any line endings, with anything else between them
and in any chunks: the stream hands exactly their payloads to `dispatch_event`, in order and
each once; and of a body with a single event, `parse_sse_body` decodes its payload.
-/
theorem decode_encode (env : ClientEnv) (cl : LeafClient) (events : List SseEvent) (body : String)
    (hbody : Encodes events body) (chunks : List ByteArray) (hchunks : Carry chunks body)
    (status : Nat) (hstatus : isSuccess status = true) :
    cl.readReply env { status := status, chunks := chunks.map .ok }
        = (do
            cl.dispatchAll env (events.map SseEvent.text)
            pure (.ok ())) ∧
      ∀ e, events = [e] → parseSseBody env body = env.jsonFromSlice e.text.toUTF8 := by
  refine ⟨?_, ?_⟩
  · obtain ⟨lines, hrenders, hspells⟩ := hbody
    rw [cl.readReply_eq env hchunks hstatus, hspells.linesChars_eq hrenders.plain,
      hrenders.lineEvents_eq]
  · intro e he
    subst he
    rw [parseSseBody_eq, handed_of_encodes hbody]
    rfl

/-- An event whose payload is a JSON string with one character, of two bytes. -/
def accent : SseEvent where
  first := ['"', 'é', '"']
  more := []
  first_ne := by decide
  plain := by decide

/-- The event behind a comment, with both line endings. -/
def accentBody : String :=
  String.ofList ([':'] ++ '\r' :: '\n' :: (dataLine ['"', 'é', '"'] ++ '\n' :: ([] ++ '\n' :: [])))

theorem accentBody_encodes : Encodes [accent] accentBody := by
  refine ⟨[[':'], dataLine ['"', 'é', '"'], []], ?_, ?_⟩
  · have hblock : Block accent.payloads [dataLine ['"', 'é', '"']] := .data .nil
    exact .other ⟨by decide, by decide, rfl⟩ (Renders.event hblock .nil)
  · rw [accentBody, String.toList_ofList]
    exact .crlf (.lf (.lf .nil))

/-- The bytes of it, cut inside the `é`. -/
def accentChunks : List ByteArray :=
  [⟨#[58, 13, 10, 100, 97, 116, 97, 58, 32, 34, 195]⟩, ⟨#[169, 34, 10, 10]⟩]

theorem accentChunks_carry : Carry accentChunks accentBody := by
  rw [Carry, Utf8.toUTF8_eq, accentBody, String.toList_ofList]
  decide

/-- An event whose payload is two lines long. -/
def numbers : SseEvent where
  first := ['[', '1', ',']
  more := [['2', ']']]
  first_ne := by decide
  plain := by decide

/-- The lines of the two events, with comments and an id among them. -/
def feedLines : List (List Char) :=
  [[':'], dataLine accent.first, [], ['i', 'd', ':', '7'], dataLine numbers.first, [':'],
    dataLine ['2', ']'], []]

def feedBody : String :=
  String.ofList ([':'] ++ '\r' :: '\n' :: (dataLine accent.first ++ '\n' :: ([] ++ '\n' ::
    (['i', 'd', ':', '7'] ++ '\r' :: '\n' :: (dataLine numbers.first ++ '\n' :: ([':'] ++ '\n' ::
      (dataLine ['2', ']'] ++ '\r' :: '\n' :: ([] ++ '\r' :: '\n' :: []))))))))

theorem feedBody_encodes : Encodes [accent, numbers] feedBody := by
  refine ⟨feedLines, ?_, ?_⟩
  · have haccent : Block accent.payloads [dataLine accent.first] := .data .nil
    have hnumbers : Block numbers.payloads
        [['i', 'd', ':', '7'], dataLine numbers.first, [':'], dataLine ['2', ']']] :=
      .other ⟨by decide, by decide, rfl⟩ (.data (.other ⟨by decide, by decide, rfl⟩ (.data .nil)))
    exact .other ⟨by decide, by decide, rfl⟩ (.event haccent (.event hnumbers .nil))
  · rw [feedBody, String.toList_ofList]
    exact .crlf (.lf (.lf (.crlf (.lf (.lf (.crlf (.crlf .nil)))))))

/-- The bytes of it, cut inside the `é`, a field name and a line ending. -/
def feedChunks : List ByteArray :=
  accentChunks ++
    [⟨#[105, 100, 58, 55, 13, 10, 100, 97, 116, 97, 58, 32, 91, 49, 44, 10, 58, 10, 100, 97]⟩,
      ⟨#[116, 97, 58, 32, 50, 93, 13]⟩, ⟨#[10, 13, 10]⟩]

theorem feedChunks_carry : Carry feedChunks feedBody := by
  rw [Carry, Utf8.toUTF8_eq, feedBody, String.toList_ofList]
  decide

def accentEnv : ClientEnv where
  readFile := fun path => .error path
  jsonFromSlice := fun bytes =>
    if bytes.data = #[34, 195, 169, 34] then some (.string "é") else none
  statusText := fun _ => "200 OK"

def accentClient : LeafClient :=
  LeafClient.new { aliasName := "docs", url := "http://docs/mcp", transport := .streamableHttp }

/-- The stream hands both payloads on, and of a body with one of them its parser reads it. -/
theorem accent_decoded :
    accentClient.readReply accentEnv { status := 200, chunks := feedChunks.map .ok }
        = (do
            accentClient.dispatchAll accentEnv ["\"é\"", "[1,\n2]"]
            pure (.ok ())) ∧
      parseSseBody accentEnv accentBody = some (.string "é") := by
  have htext : accent.text = "\"é\"" := rfl
  have hnumbers : numbers.text = "[1,\n2]" := rfl
  obtain ⟨hstream, -⟩ := decode_encode accentEnv accentClient [accent, numbers] feedBody
    feedBody_encodes feedChunks feedChunks_carry 200 rfl
  obtain ⟨-, hbody⟩ := decode_encode accentEnv accentClient [accent] accentBody
    accentBody_encodes accentChunks accentChunks_carry 200 rfl
  refine ⟨by rw [hstream, ← htext, ← hnumbers]; rfl, ?_⟩
  rw [hbody accent rfl]
  have hbytes : accent.text.toUTF8.data = #[34, 195, 169, 34] := by
    rw [htext]
    decide
  show (if accent.text.toUTF8.data = #[34, 195, 169, 34] then some (Value.string "é") else none) = _
  rw [if_pos hbytes]

/-! ### A body with several events -/

/-- Adding a line makes the buffer no shorter, and keeps longer buffers longer. -/
theorem length_le_addLine (data line : List Char) : data.length ≤ (addLine data line).length := by
  unfold addLine joinPayload
  split
  · exact Nat.le_refl _
  · split
    · next h => simp [h]
    · simp

theorem addLine_lt {data data' : List Char} (h : data.length < data'.length) (line : List Char) :
    (addLine data line).length < (addLine data' line).length := by
  have hne : data' ≠ [] := fun hc => by simp [hc] at h
  unfold addLine joinPayload
  split
  · exact h
  · rw [if_neg hne]
    split
    · simp only [List.length_append, List.length_cons]
      omega
    · simp only [List.length_append, List.length_cons]
      omega

theorem length_le_foldl_addLine (lines : List (List Char)) : ∀ data : List Char,
    data.length ≤ (lines.foldl addLine data).length := by
  induction lines with
  | nil => intro data; exact Nat.le_refl _
  | cons line rest ih =>
      intro data
      exact Nat.le_trans (length_le_addLine data line) (ih _)

theorem foldl_addLine_lt (lines : List (List Char)) : ∀ {data data' : List Char},
    data.length < data'.length →
      (lines.foldl addLine data).length < (lines.foldl addLine data').length := by
  induction lines with
  | nil => intro data data' h; exact h
  | cons line rest ih => intro data data' h; exact ih (addLine_lt h line)

/-- A `data:` line after something in the buffer makes it longer. -/
theorem lt_foldl_addLine {data : List Char} (h : data ≠ []) {lines : List (List Char)}
    (hdata : ∃ line ∈ lines, payloadOf line ≠ none) :
    data.length < (lines.foldl addLine data).length := by
  have hpayloads : lines.filterMap payloadOf ≠ [] := by
    obtain ⟨line, hl, hp⟩ := hdata
    obtain ⟨p, hp⟩ := Option.ne_none_iff_exists'.mp hp
    exact List.ne_nil_of_mem (List.mem_filterMap.mpr ⟨line, hl, hp⟩)
  obtain ⟨p, ps, hps⟩ := List.exists_cons_of_ne_nil hpayloads
  rw [foldl_addLine, foldl_joinPayload h, hps, joinLines, List.intercalate_cons_cons]
  simp only [List.length_append, List.length_singleton]
  omega

/-- No event is longer than all the payloads together. -/
theorem length_le_of_mem_lineEvents (lines : List (List Char)) : ∀ {data : List Char} {e : String},
    e ∈ lineEvents lines data → e.toList.length ≤ (lines.foldl addLine data).length := by
  have hflush : ∀ {data : List Char} {e : String}, e ∈ flushed data → e.toList = data := by
    intro data e he
    unfold flushed at he
    split at he
    · cases he
    · rw [List.mem_singleton.mp he, String.toList_ofList]
  induction lines with
  | nil =>
      intro data e he
      rw [hflush he]
      exact Nat.le_refl _
  | cons line rest ih =>
      intro data e he
      rw [lineEvents] at he
      split at he
      · next hline =>
          have hadd : addLine data line = data := by rw [hline]; rfl
          rw [List.foldl_cons, hadd]
          rcases List.mem_append.mp he with he | he
          · rw [hflush he]
            exact length_le_foldl_addLine rest data
          · refine Nat.le_trans (ih he) ?_
            cases data with
            | nil => exact Nat.le_refl _
            | cons c data => exact Nat.le_of_lt (foldl_addLine_lt rest (by simp))
      · exact ih he

/-- A blank line ends what was before it. -/
theorem lineEvents_blank (lines rest : List (List Char)) : ∀ data : List Char,
    lineEvents (lines ++ [] :: rest) data = lineEvents lines data ++ lineEvents rest [] := by
  induction lines with
  | nil => intro data; rfl
  | cons line lines ih =>
      intro data
      rw [List.cons_append, lineEvents, lineEvents]
      split
      · rw [ih, List.append_assoc]
      · exact ih _

/-- A blank line stands between a `data:` line with something in it, or something in the
buffer, and a later `data:` line. -/
def SplitFrom (data : List Char) (lines : List (List Char)) : Prop :=
  ∃ before after, lines = before ++ [] :: after ∧ before.foldl addLine data ≠ [] ∧
    ∃ line ∈ after, payloadOf line ≠ none

theorem SplitFrom.cons {data line : List Char} {lines : List (List Char)}
    (h : SplitFrom (addLine data line) lines) : SplitFrom data (line :: lines) := by
  obtain ⟨before, after, rfl, hbefore, hafter⟩ := h
  exact ⟨line :: before, after, rfl, hbefore, hafter⟩

/-- Lines without a payload add nothing. -/
theorem foldl_addLine_of_none {lines : List (List Char)}
    (h : ¬ ∃ line ∈ lines, payloadOf line ≠ none) (data : List Char) :
    lines.foldl addLine data = data := by
  have hnone : lines.filterMap payloadOf = [] := by
    refine List.filterMap_eq_nil_iff.mpr fun line hl => ?_
    by_contra hp
    exact h ⟨line, hl, hp⟩
  rw [foldl_addLine, hnone]
  rfl

/-- Data that is not split is one event. -/
theorem lineEvents_of_not_split (lines : List (List Char)) : ∀ {data : List Char},
    ¬ SplitFrom data lines → lineEvents lines data = flushed (lines.foldl addLine data) := by
  induction lines with
  | nil => intro data _; rfl
  | cons line rest ih =>
      intro data hsplit
      have hrest : ¬ SplitFrom (addLine data line) rest := fun h => hsplit h.cons
      rw [lineEvents]
      split
      · next hline =>
          have hadd : addLine data line = data := by rw [hline]; rfl
          rw [List.foldl_cons, hadd]
          rw [hadd] at hrest
          by_cases hdata : data = []
          · subst hdata
            exact ih hrest
          · -- The event ends here, so there is nothing more to come.
            have hnone : ¬ ∃ l ∈ rest, payloadOf l ≠ none := fun hafter =>
              hsplit ⟨[], rest, by rw [hline]; rfl, hdata, hafter⟩
            have hlater : ¬ SplitFrom [] rest := by
              intro h
              obtain ⟨before, after, rfl, -, l, hl, hp⟩ := h
              exact hnone ⟨l, List.mem_append_right _ (List.mem_cons_of_mem _ hl), hp⟩
            rw [ih hlater, foldl_addLine_of_none hnone, foldl_addLine_of_none hnone]
            exact List.append_nil _
      · exact ih hrest

/-- Data that is split is longer than every event. -/
theorem not_mem_lineEvents_of_split {lines : List (List Char)} {data : List Char}
    (h : SplitFrom data lines) :
    String.ofList (lines.foldl addLine data) ∉ lineEvents lines data := by
  obtain ⟨before, after, rfl, hbefore, hafter⟩ := h
  have hall : (before ++ [] :: after).foldl addLine data
      = after.foldl addLine (before.foldl addLine data) := by
    rw [List.foldl_append]
    rfl
  intro hmem
  rw [lineEvents_blank, hall] at hmem
  rcases List.mem_append.mp hmem with hmem | hmem
  · have hle := length_le_of_mem_lineEvents before hmem
    rw [String.toList_ofList] at hle
    exact absurd (lt_foldl_addLine hbefore hafter) (Nat.not_lt.mpr hle)
  · have hle := length_le_of_mem_lineEvents after hmem
    rw [String.toList_ofList] at hle
    have hlt : (after.foldl addLine []).length
        < (after.foldl addLine (before.foldl addLine data)).length :=
      foldl_addLine_lt after (List.length_pos_iff.mpr hbefore)
    exact absurd hlt (Nat.not_lt.mpr hle)

/-- A blank line stands between a `data:` line with a payload and a later `data:` line. -/
def SeveralEvents (lines : List (List Char)) : Prop :=
  ∃ before after, lines = before ++ [] :: after ∧
    (∃ line ∈ before, ∃ p, payloadOf line = some p ∧ p ≠ []) ∧
    ∃ line ∈ after, payloadOf line ≠ none

theorem foldl_addLine_ne_nil_iff (lines : List (List Char)) :
    lines.foldl addLine [] ≠ [] ↔ ∃ line ∈ lines, ∃ p, payloadOf line = some p ∧ p ≠ [] := by
  have hempty : lines.foldl addLine [] = [] ↔ ∀ p ∈ lines.filterMap payloadOf, p = [] := by
    rw [foldl_addLine]
    induction lines.filterMap payloadOf with
    | nil => simp
    | cons p rest ih =>
        rw [List.foldl_cons, joinPayload, if_pos rfl, List.forall_mem_cons]
        by_cases hp : p = []
        · rw [hp, ih]
          simp
        · rw [foldl_joinPayload hp]
          refine iff_of_false ?_ fun h => hp h.1
          cases rest <;> simp [joinLines, hp]
  rw [ne_eq, hempty]
  simp only [List.mem_filterMap, not_forall]
  refine ⟨?_, ?_⟩
  · intro h
    obtain ⟨p, ⟨line, hl, hp⟩, hne⟩ := h
    exact ⟨line, hl, p, hp, hne⟩
  · intro h
    obtain ⟨line, hl, p, hp, hne⟩ := h
    exact ⟨p, ⟨line, hl, hp⟩, hne⟩

theorem splitFrom_nil_iff (lines : List (List Char)) :
    SplitFrom [] lines ↔ SeveralEvents lines := by
  simp only [SplitFrom, SeveralEvents, foldl_addLine_ne_nil_iff]

/--
**What `parse_sse_body` reads, and when it is an event.**  It hands over the payloads of all
`data:` lines, joined by LF; that is the payload of an event of the stream exactly if no blank
line stands between two of them.  Lines that end in a CR of their own are left out: the body
parser strips it and the stream does not.
-/
theorem handed_iff (body : String)
    (hcr : ∀ line ∈ Text.linesChars body.toList, line.getLast? ≠ some '\r')
    (chunks : List ByteArray) (hchunks : Carry chunks body) :
    let all := joinLines (((Text.linesChars body.toList).filterMap payloadOf).dropWhile (· = []))
    handed body = (if all = [] then none else some (String.ofList all)) ∧
      ∀ text, handed body = some text →
        (text ∈ SseM.payloads (readChunks (chunks.map .ok) {}) ↔
          ¬ SeveralEvents (Text.linesChars body.toList)) := by
  have hdata : sseData (Text.linesChars body.toList) []
      = (Text.linesChars body.toList).foldl addLine [] := by
    rw [sseData_eq, stripCr_plain hcr]
  refine ⟨?_, ?_⟩
  · rw [← foldl_joinPayload_nil, ← foldl_addLine, ← hdata]
    rfl
  · intro text htext
    unfold handed at htext
    rw [hdata] at htext
    rw [readChunks_eq hchunks, SseM.payloads_handing, ← splitFrom_nil_iff]
    by_cases hne : (Text.linesChars body.toList).foldl addLine [] = []
    · rw [hne] at htext
      cases htext
    · obtain rfl := Option.some.inj ((if_neg hne).symm.trans htext)
      exact ⟨fun hmem hsplit => not_mem_lineEvents_of_split hsplit hmem,
        fun hsplit => by
          rw [lineEvents_of_not_split _ hsplit, flushed, if_neg hne]
          exact List.mem_singleton.mpr rfl⟩

/-- The one event of the body above is what its parser reads. -/
theorem accent_handed :
    handed accentBody = some accent.text ∧
      accent.text ∈ SseM.payloads (readChunks (accentChunks.map .ok) {}) := by
  have hlines : Text.linesChars accentBody.toList = [[':'], dataLine accent.first, []] := by
    rw [accentBody, String.toList_ofList]
    rfl
  have hcr : ∀ line ∈ Text.linesChars accentBody.toList, line.getLast? ≠ some '\r' := by
    rw [hlines]
    decide
  obtain ⟨hall, hevent⟩ := handed_iff accentBody hcr accentChunks accentChunks_carry
  have htext : handed accentBody = some accent.text := by
    rw [hall, hlines]
    rfl
  refine ⟨htext, (hevent accent.text htext).mpr ?_⟩
  -- The only blank line is the last one.
  rw [hlines]
  intro hseveral
  obtain ⟨before, after, hsplit, -, line, hl, -⟩ := hseveral
  rcases before with _ | ⟨a, _ | ⟨b, _ | ⟨c, before⟩⟩⟩
  · cases (List.cons.inj hsplit).1
  · cases (List.cons.inj (List.cons.inj hsplit).2).1
  · obtain rfl := (List.cons.inj (List.cons.inj (List.cons.inj hsplit).2).2).2
    cases hl
  · simp at hsplit

/-- A body in one chunk. -/
theorem carry_singleton (body : String) : Carry [body.toUTF8] body := List.flatMap_singleton ..

/-- An event with the payload `1`, and one with `2`. -/
def twoEventsBody : String := "data: 1\n\ndata: 2\n\n"

/-- An event whose line has a CR before its CRLF. -/
def strayCrBody : String := "data: 1\r\r\n\n"

/-- Of two events `parse_sse_body` makes a text that is neither, and a CR at the end of a
line is part of the payload for the stream only. -/
theorem two_events_joined :
    (handed twoEventsBody = some "1\n2" ∧
      SseM.payloads (readChunks [.ok twoEventsBody.toUTF8] {}) = ["1", "2"]) ∧
    (handed strayCrBody = some "1" ∧
      SseM.payloads (readChunks [.ok strayCrBody.toUTF8] {}) = ["1\r"]) ∧
    ¬ ∀ (body : String) (chunks : List ByteArray), Carry chunks body →
      ∀ text, handed body = some text → text ∈ SseM.payloads (readChunks (chunks.map .ok) {}) := by
  have hread : ∀ body : String, SseM.payloads (readChunks [.ok body.toUTF8] {})
      = lineEvents (Text.linesChars body.toList) [] := by
    intro body
    have h := readChunks_eq (carry_singleton body)
    rw [List.map_singleton] at h
    rw [h, SseM.payloads_handing]
  have htwo : SseM.payloads (readChunks [.ok twoEventsBody.toUTF8] {}) = ["1", "2"] := by
    rw [hread]
    decide
  have hstray : SseM.payloads (readChunks [.ok strayCrBody.toUTF8] {}) = ["1\r"] := by
    rw [hread]
    decide
  refine ⟨⟨by decide, htwo⟩, ⟨by decide, hstray⟩, ?_⟩
  intro hall
  have hmem := hall twoEventsBody [twoEventsBody.toUTF8] (carry_singleton _) "1\n2" (by decide)
  rw [List.map_singleton, htwo] at hmem
  exact absurd hmem (by decide)

end McpFederation
