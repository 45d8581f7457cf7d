/-
What is read out of a stream of events.

The reader of a notification stream works byte by byte: a buffer for the line that is not
complete yet, one for the payload, a flush at the end.  How the bytes are cut into chunks
must not matter, nor that a cut may go through a character.  `readChunks_eq` says that it
does not: for a UTF-8 text, in whatever chunks, the reader hands over the events of its
lines, as `lineEvents` reads them off.  LF is the one byte the reader looks for, and it is
in the encoding of no other character.
-/
import McpFederation.Lib.Utf8
import McpFederation.Model.Listener

namespace McpFederation

/-! ### Code that hands over payloads -/

namespace SseM

variable {α β : Type}

/-- Hand over the payloads in order, and give `a`. -/
def handing : List String → α → SseM α
  | [], a => .ret a
  | p :: ps, a => .call p fun _ => handing ps a

/-- The payloads that are handed over, in order. -/
def payloads : SseM α → List String
  | .ret _ => []
  | .call p k => p :: payloads (k ())

theorem payloads_handing (ps : List String) (a : α) : payloads (handing ps a) = ps := by
  induction ps with
  | nil => rfl
  | cons p ps ih => exact congrArg (List.cons p) ih

theorem payloads_handing_bind (ps : List String) (a : α) (f : α → SseM β) :
    payloads (handing ps a >>= f) = ps ++ payloads (f a) := by
  induction ps with
  | nil => rfl
  | cons p ps ih => exact congrArg (List.cons p) ih

theorem handing_bind {f : α → SseM β} {a : α} {qs : List String} {b : β}
    (h : f a = handing qs b) (ps : List String) :
    (handing ps a >>= f) = handing (ps ++ qs) b := by
  induction ps with
  | nil => exact h
  | cons p ps ih => exact congrArg (Prog.call p) (funext fun _ => ih)

theorem handing_pure (ps : List String) (b : β) :
    (handing ps () >>= fun _ => pure b) = handing ps b := by
  induction ps with
  | nil => rfl
  | cons p ps ih => exact congrArg (Prog.call p) (funext fun _ => ih)

end SseM

/-! ### The events of a list of lines -/

/-- The payload of a `data:` line; one space after the colon is not part of it. -/
def payloadOf (line : List Char) : Option (List Char) :=
  (Text.stripChars ['d', 'a', 't', 'a', ':'] line).map fun payload =>
    (Text.stripChars [' '] payload).getD payload

/-- One more payload line in the data buffer. -/
def joinPayload (data payload : List Char) : List Char :=
  if data = [] then payload else data ++ '\n' :: payload

/-- The data buffer after a line that is not blank. -/
def addLine (data line : List Char) : List Char :=
  match payloadOf line with
  | none => data
  | some payload => joinPayload data payload

/-- An event with no payload is none. -/
def flushed (data : List Char) : List String := if data = [] then [] else [String.ofList data]

/-- The events of a list of lines, if `data` is in the buffer. -/
def lineEvents : List (List Char) → List Char → List String
  | [], data => flushed data
  | line :: rest, data =>
      if line = [] then flushed data ++ lineEvents rest [] else lineEvents rest (addLine data line)

/-- What starts with a colon is no `data:` line. -/
theorem payloadOf_comment {line : List Char} (h : line.head? = some ':') :
    payloadOf line = none := by
  cases line with
  | nil => rfl
  | cons c rest =>
      obtain rfl := Option.some.inj h
      simp [payloadOf, Text.stripChars]

theorem handleSseLine_of_ne {line : List Char} (h : line ≠ []) (data : List Char) :
    handleSseLine line data = .ret (addLine data line) := by
  unfold handleSseLine
  rw [if_neg h]
  split
  · next hcolon =>
      rw [addLine, payloadOf_comment hcolon]
      rfl
  · unfold addLine payloadOf joinPayload
    cases Text.stripChars ['d', 'a', 't', 'a', ':'] line <;> rfl

theorem handleSseLine_blank (data : List Char) :
    handleSseLine [] data = SseM.handing (flushed data) [] := by
  unfold handleSseLine flushed
  rw [if_pos rfl]
  split
  · next h => rw [h]; rfl
  · rfl

/-- A line and what comes after it. -/
theorem handleSseLine_bind {α : Type} {line data : List Char} {rest : List (List Char)}
    {f : List Char → SseM α} {a : α} (h : ∀ data, f data = SseM.handing (lineEvents rest data) a) :
    (handleSseLine line data >>= f) = SseM.handing (lineEvents (line :: rest) data) a := by
  by_cases hline : line = []
  · subst hline
    rw [handleSseLine_blank, SseM.handing_bind (h [])]
    rfl
  · rw [handleSseLine_of_ne hline, Prog.ret_bind, h, lineEvents, if_neg hline]

/-! ### From bytes to lines -/

theorem lineText_encode (line : List Char) : lineText (Utf8.encode line) = line := by
  simp [lineText, Utf8.fromUTF8_encode]

theorem completeLine_encode (line : List Char) :
    completeLine (Utf8.encode line) = Text.stripCr line := by
  unfold completeLine
  by_cases hlast : line.getLast? = some '\r'
  · obtain ⟨init, rfl⟩ := List.getLast?_eq_some_iff.mp hlast
    have hbytes : Utf8.encode (init ++ ['\r']) = Utf8.encode init ++ [13] := by
      rw [Utf8.encode_append]
      rfl
    rw [hbytes, List.getLast?_concat, if_pos rfl, List.dropLast_concat, lineText_encode,
      Text.stripCr_concat]
  · have hbyte : (Utf8.encode line).getLast? ≠ some 13 :=
      mt (Utf8.getLast?_encode (c := '\r') (by decide) line).mp hlast
    rw [if_neg hbyte, lineText_encode, Text.stripCr_of_getLast? hlast]

/-- The reader keeps what it needs in its buffers, so bytes can be read piece by piece. -/
theorem readBytes_append (a b : List UInt8) : ∀ buf : SseBuffers,
    readBytes (a ++ b) buf = (readBytes a buf >>= readBytes b) := by
  induction a with
  | nil => intro buf; rfl
  | cons x a ih =>
      intro buf
      simp only [List.cons_append, readBytes]
      split
      · rw [bind_assoc]
        exact congrArg _ (funext fun data => ih _)
      · exact ih _

/-- Bytes that are not LF are only gathered. -/
theorem readBytes_of_not_mem {bytes : List UInt8} (h : 10 ∉ bytes) : ∀ buf : SseBuffers,
    readBytes bytes buf = .ret { buf with lineBuf := buf.lineBuf ++ bytes } := by
  induction bytes with
  | nil =>
      intro buf
      rw [List.append_nil]
      rfl
  | cons b bytes ih =>
      intro buf
      obtain ⟨hb, hbytes⟩ := not_or.mp (mt List.mem_cons.mpr h)
      rw [readBytes, if_neg (Ne.symm hb), ih hbytes, List.append_assoc, List.singleton_append]

theorem flush_eq_handing (data : List Char) :
    (if data = [] then pure () else SseM.dispatch (String.ofList data))
      = SseM.handing (flushed data) () := by
  unfold flushed
  split <;> rfl

/-- At the end of the stream, what is in the line buffer is a last line. -/
theorem flushBuffers_encode {line : List Char} (h : '\n' ∉ line) (data : List Char) :
    flushBuffers { lineBuf := Utf8.encode line, dataBuf := data }
      = SseM.handing (lineEvents (Text.linesChars line) data) () := by
  unfold flushBuffers
  by_cases hline : line = []
  · subst hline
    exact flush_eq_handing data
  · have hbytes : Utf8.encode line ≠ [] := by
      simp [Utf8.encode, List.flatMap_eq_nil_iff, ← List.eq_nil_iff_forall_not_mem, hline]
    rw [if_neg hbytes, lineText_encode, Text.linesChars_of_not_mem h hline]
    exact handleSseLine_bind flush_eq_handing

/-- The rest of a text, with the beginning of a line in the buffer. -/
theorem readBytes_encode (rest : List Char) : ∀ line data : List Char, '\n' ∉ line →
    (readBytes (Utf8.encode rest) { lineBuf := Utf8.encode line, dataBuf := data }
        >>= flushBuffers)
      = SseM.handing (lineEvents (Text.linesChars (line ++ rest)) data) () := by
  induction rest with
  | nil =>
      intro line data h
      rw [List.append_nil]
      exact flushBuffers_encode h data
  | cons c rest ih =>
      intro line data h
      by_cases hc : c = '\n'
      · -- The line is complete, and the next one starts with an empty buffer.
        subst hc
        rw [Text.linesChars_append_lf h, ← completeLine_encode]
        show (handleSseLine _ data >>= fun data =>
          readBytes (Utf8.encode rest) { dataBuf := data }) >>= flushBuffers = _
        rw [bind_assoc]
        exact handleSseLine_bind fun data => ih [] data (by simp)
      · have hbytes : 10 ∉ String.utf8EncodeChar c := fun hmem =>
          hc (Utf8.eq_of_mem_encodeChar (c := '\n') (by decide) hmem)
        have hline : '\n' ∉ line ++ [c] := by simp [h, Ne.symm hc]
        have hencode : Utf8.encode line ++ String.utf8EncodeChar c = Utf8.encode (line ++ [c]) := by
          rw [Utf8.encode_append, Utf8.encode, Utf8.encode, List.flatMap_singleton]
        show readBytes (String.utf8EncodeChar c ++ Utf8.encode rest) _ >>= flushBuffers = _
        rw [readBytes_append, readBytes_of_not_mem hbytes, Prog.ret_bind, hencode,
          ih _ data hline, List.append_assoc, List.singleton_append]

/-! ### Any chunks -/

/-- Chunks that arrive are read as one. -/
theorem readChunks_ok (chunks : List ByteArray) : ∀ buf : SseBuffers,
    readChunks (chunks.map .ok) buf
      = (readBytes (chunks.flatMap (·.data.toList)) buf >>= flushBuffers >>= fun _ =>
          pure (.ok ())) := by
  induction chunks with
  | nil => intro buf; rfl
  | cons bytes rest ih =>
      intro buf
      rw [List.flatMap_cons, readBytes_append]
      simp only [List.map_cons, readChunks, bind_assoc]
      refine congrArg _ (funext fun buf => ?_)
      rw [ih, bind_assoc]

/-- The chunks, put together, are the text in UTF-8. -/
def Carry (chunks : List ByteArray) (body : String) : Prop :=
  chunks.flatMap (·.data.toList) = body.toUTF8.data.toList

/-- **The reader and the lines of a text.**  In whatever chunks a text arrives, the reader
hands over the events of its lines. -/
theorem readChunks_eq {chunks : List ByteArray} {body : String} (h : Carry chunks body) :
    readChunks (chunks.map .ok) {}
      = SseM.handing (lineEvents (Text.linesChars body.toList) []) (.ok ()) := by
  have hread := readBytes_encode body.toList [] [] (by simp)
  rw [Utf8.encode_nil, List.nil_append] at hread
  rw [readChunks_ok, h, Utf8.toUTF8_eq, hread]
  exact SseM.handing_pure _ _

/-! ### The listener -/

namespace LeafClient

variable (env : ClientEnv) (cl : LeafClient)

/-- `dispatch_event` on each payload, in order. -/
def dispatchAll : List String → ListenerM Unit
  | [] => pure ()
  | payload :: rest => do
      cl.dispatchEvent env payload
      dispatchAll rest

theorem interp_handing {α : Type} (payloads : List String) (a : α) :
    (SseM.handing payloads a).interp (cl.dispatchEvent env)
      = (cl.dispatchAll env payloads >>= fun _ => pure a) := by
  induction payloads with
  | nil => rfl
  | cons p rest ih =>
      show (cl.dispatchEvent env p >>= fun _ =>
        (SseM.handing rest a).interp (cl.dispatchEvent env)) = _
      rw [ih, dispatchAll, bind_assoc]

/-- A listener whose GET was answered with a text dispatches the events of its lines. -/
theorem readReply_eq {chunks : List ByteArray} {body : String} (h : Carry chunks body)
    {status : Nat} (hstatus : isSuccess status = true) :
    cl.readReply env { status := status, chunks := chunks.map .ok }
      = (do
          cl.dispatchAll env (lineEvents (Text.linesChars body.toList) [])
          pure (.ok ())) := by
  rw [readReply, if_pos hstatus, readChunks_eq h, interp_handing, bind_assoc]
  rfl

end LeafClient

end McpFederation
