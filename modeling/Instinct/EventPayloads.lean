/-
Instinct/EventPayloads.lean

`HttpRestClient::StreamChunkObject`: the payloads of server-sent events, which are compared with
the end sentinels and parsed.

The prefix `data:` of an event is removed by a global replacement, with the whitespace behind it,
so text of the payload that looks like a prefix is removed too.  A payload comes through if and
only if it nowhere has `data:` with whitespace behind it, and a response is read as it should be
if and only if this holds of the payloads that are read (`passesPayloads_iff`).
-/
import Instinct.Patterns
import Instinct.StreamChunks

namespace Instinct.EventPayloads

open Patterns Splitting StreamChunks

/-! ### The model -/

/-- The bytes of a text of ASCII characters. -/
def ascii (text : String) : Bytes := text.toList.map fun c => c.val.toUInt8

/-- `details::is_end_sentinels` -/
def isEndSentinels (chunkString : Bytes) (endSentinels : List Bytes) : Bool :=
  endSentinels.any fun item => item = chunkString

/-- `details::DATA_EVENT_PREFIX`, which is `data:\s+`. -/
def dataEventPrefix : List (Piece UInt8) := literally (ascii "data:") ++ [.some isSpaceByte]

/-- `details::strip_data_stream_prefix` -/
def stripDataStreamPrefix (dataEvent : Bytes) : Bytes := replace dataEventPrefix [] dataEvent

/-- What a subscriber of the objects is told. -/
inductive ObjectNotification (ResponseEntity : Type)
  | onNext (entity : ResponseEntity)
  | onError (error : StreamError)
  | onCompleted
  deriving Repr, DecidableEq

/-- The observers of the operators that `StreamChunkObject` puts behind each other: what was
compared with the end sentinels, what was parsed, what the subscriber was told, and whether the
stream is over. -/
structure ObjectStream (ResponseEntity : Type) where
  tested : List Bytes := []
  parsed : List Bytes := []
  told : List (ObjectNotification ResponseEntity) := []
  closed : Bool := false

section Operators

variable {ResponseEntity : Type} (deserialize : Bytes → Except StreamError ResponseEntity)
  (isSseEventStream : Bool) (endSentinels : List Bytes)

/-- `map` with `converter_.Deserialize`.  An exception is an error of the stream. -/
def ObjectStream.parse (stream : ObjectStream ResponseEntity) (chunkString : Bytes) :
    ObjectStream ResponseEntity :=
  let stream := { stream with parsed := stream.parsed ++ [chunkString] }
  match deserialize chunkString with
  | .ok entity => { stream with told := stream.told ++ [.onNext entity] }
  | .error error => { stream with told := stream.told ++ [.onError error], closed := true }

/-- `take_while` with the end sentinels: the first value that is one completes the stream. -/
def ObjectStream.test (stream : ObjectStream ResponseEntity) (chunkString : Bytes) :
    ObjectStream ResponseEntity :=
  let stream := { stream with tested := stream.tested ++ [chunkString] }
  if isEndSentinels chunkString endSentinels then
    { stream with told := stream.told ++ [.onCompleted], closed := true }
  else stream.parse deserialize chunkString

/-- What the response client passes on goes through the operators, until the stream is over. -/
def ObjectStream.observe (stream : ObjectStream ResponseEntity) (notification : Notification) :
    ObjectStream ResponseEntity :=
  if stream.closed then stream
  else
    match notification with
    | .onNext chunkString =>
        if isSseEventStream then
          stream.test deserialize endSentinels (stripDataStreamPrefix chunkString)
        else stream.parse deserialize chunkString
    | .onError error => { stream with told := stream.told ++ [.onError error], closed := true }
    | .onCompleted => { stream with told := stream.told ++ [.onCompleted], closed := true }

/-- `HttpRestClient::StreamChunkObject`, as far as the response to its request. -/
def streamChunkObject (curlEasyStrerror : Nat → String) (transfer : Transfer)
    (lineBreaker : Bytes) (hne : lineBreaker ≠ []) : Option (ObjectStream ResponseEntity) :=
  (streamChunk curlEasyStrerror transfer lineBreaker hne).map fun notifications =>
    notifications.foldl (ObjectStream.observe deserialize isSseEventStream endSentinels) {}

end Operators

/-! ### Events and payloads -/

/-- The payload of an event.  It does not begin with whitespace. -/
structure Payload where
  text : Bytes
  noBlank : text.head?.any isSpaceByte = false

/-- The line of a server-sent event. -/
def Payload.event (payload : Payload) : Bytes := ascii "data: " ++ payload.text

/-- Somewhere in the text there is `data:` with whitespace behind it. -/
def QuotesPrefix (text : Bytes) : Prop :=
  ∃ b, isSpaceByte b = true ∧ ascii "data:" ++ [b] <:+: text

/-- The payload of a line that is an event. -/
def payload? (line : Bytes) : Option Bytes :=
  let text := line.drop (ascii "data: ").length
  if (ascii "data: ").isPrefixOf line && !text.head?.any isSpaceByte then some text else none

/-- What a line stands for: an event for its payload.  Other lines are as the code has them. -/
def textOf (line : Bytes) : Bytes := (payload? line).getD (stripDataStreamPrefix line)

/-- The lines of a response that are passed on. -/
def linesOf (transfer : Transfer) (lineBreaker : Bytes) : List Bytes :=
  if transfer.ret = 0 then pieces lineBreaker transfer.chunks.flatten
  else (fields lineBreaker transfer.chunks.flatten).dropLast

/-- The list up to the first element that ends it, with that one. -/
def upTo {α : Type} (ends : α → Bool) : List α → List α
  | [] => []
  | a :: rest => a :: if ends a then [] else upTo ends rest

section Spec

variable {ResponseEntity : Type} (deserialize : Bytes → Except StreamError ResponseEntity)
  (endSentinels : List Bytes)

/-- Nothing is read behind an end sentinel, nor behind what cannot be parsed. -/
def ends (text : Bytes) : Bool :=
  isEndSentinels text endSentinels || !(deserialize text).isOk

/-- The lines of a response that should be read. -/
def linesRead (transfer : Transfer) (lineBreaker : Bytes) : List Bytes :=
  upTo (fun line => ends deserialize endSentinels (textOf line)) (linesOf transfer lineBreaker)

/-- The payloads of a response that should be read. -/
def payloadsRead (transfer : Transfer) (lineBreaker : Bytes) : List Bytes :=
  (linesRead deserialize endSentinels transfer lineBreaker).filterMap payload?

/-- What is compared with the end sentinels is the payload of each event, and so is what is
parsed, unless it is a sentinel. -/
def PassesPayloads (curlEasyStrerror : Nat → String) (transfer : Transfer) (lineBreaker : Bytes)
    (hne : lineBreaker ≠ []) : Prop :=
  ∃ stream, streamChunkObject deserialize true endSentinels curlEasyStrerror transfer lineBreaker
      hne = some stream ∧
    stream.tested = (linesRead deserialize endSentinels transfer lineBreaker).map textOf ∧
    stream.parsed = ((linesRead deserialize endSentinels transfer lineBreaker).map textOf).filter
      fun text => !isEndSentinels text endSentinels

end Spec

/-! ### Stripping the prefix -/

section Strip

variable {text rest : Bytes}

theorem consumes_dataEventPrefix : Consumes dataEventPrefix := consumes_literally (by decide)

/-- The prefix is found where `data:` has whitespace behind it. -/
theorem matchAt_dataEventPrefix_ne_none_iff : matchAt dataEventPrefix rest ≠ none ↔
    ∃ b tail, isSpaceByte b = true ∧ rest = ascii "data:" ++ b :: tail := by
  constructor
  · intro h
    obtain ⟨runs, hruns⟩ := Option.ne_none_iff_exists'.mp h
    obtain ⟨behind, runs', rfl, hblank, -⟩ := exists_of_matchAt_literally hruns
    obtain ⟨run, tail, -, rfl, hleast, hspace, -⟩ := exists_of_matchAt_cons hblank
    obtain ⟨b, run, rfl⟩ := List.exists_cons_of_ne_nil (List.length_pos_iff.mp hleast)
    exact ⟨b, run ++ tail, hspace b List.mem_cons_self, rfl⟩
  · rintro ⟨b, tail, hb, rfl⟩ h
    rw [dataEventPrefix, matchAt_literally, matchAt_some_cons hb] at h
    cases h

/-- A text stays as it is if and only if the prefix is nowhere in it. -/
theorem stripDataStreamPrefix_eq_self_iff :
    stripDataStreamPrefix text = text ↔ ¬ QuotesPrefix text := by
  rw [stripDataStreamPrefix, replace_nil_eq_self_iff consumes_dataEventPrefix]
  constructor
  · rintro h ⟨b, hb, front, tail, rfl⟩
    refine matchAt_dataEventPrefix_ne_none_iff.mpr ⟨b, tail, hb, rfl⟩ (h _ ⟨front, ?_⟩)
    simp
  · intro h rest hrest
    by_contra hmatch
    obtain ⟨b, tail, hb, rfl⟩ := matchAt_dataEventPrefix_ne_none_iff.mp hmatch
    obtain ⟨front, rfl⟩ := hrest
    exact h ⟨b, hb, front, tail, by simp⟩

/-- Of an event, the prefix is removed, and then the payload is stripped itself. -/
theorem stripDataStreamPrefix_event (payload : Payload) :
    stripDataStreamPrefix payload.event = stripDataStreamPrefix payload.text := by
  have hevent : payload.event = ascii "data:" ++ 0x20 :: payload.text := rfl
  have hblank : payload.text.takeWhile isSpaceByte = [] := by
    rcases payload with ⟨- | ⟨b, text⟩, hb⟩
    · rfl
    · exact List.takeWhile_cons_of_neg (Bool.eq_false_iff.mp hb)
  have hmatch : matchAt dataEventPrefix payload.event
      = some ((ascii "data:").map ([·]) ++ [[0x20]]) := by
    rw [hevent, dataEventPrefix, matchAt_literally, matchAt_some_cons rfl,
      List.takeWhile_cons_of_pos rfl, hblank]
    rfl
  rw [stripDataStreamPrefix, replace_of_some hmatch (Nat.succ_pos _)]
  rfl

/-- A text without a colon does not quote the prefix. -/
theorem not_quotesPrefix_of_notMem (h : 0x3a ∉ text) : ¬ QuotesPrefix text := by
  rintro ⟨b, -, hquoted⟩
  refine h (hquoted.subset (List.mem_append_left _ ?_))
  exact .tail _ (.tail _ (.tail _ (.tail _ (.head _))))

theorem stripDataStreamPrefix_event_eq_iff (payload : Payload) :
    stripDataStreamPrefix payload.event = payload.text ↔ ¬ QuotesPrefix payload.text := by
  rw [stripDataStreamPrefix_event, stripDataStreamPrefix_eq_self_iff]

end Strip

/-- A line that is an event has the payload of one, and is that event. -/
theorem payload?_eq_some_iff {line text : Bytes} :
    payload? line = some text ↔
      ∃ payload : Payload, payload.text = text ∧ line = payload.event := by
  rw [payload?, Option.ite_none_right_eq_some, Bool.and_eq_true, List.isPrefixOf_iff_prefix,
    Option.some_inj, Bool.not_eq_true']
  constructor
  · rintro ⟨⟨⟨rest, rfl⟩, hblank⟩, rfl⟩
    rw [List.drop_left] at hblank ⊢
    exact ⟨⟨rest, hblank⟩, rfl, rfl⟩
  · rintro ⟨payload, rfl, rfl⟩
    rw [Payload.event, List.drop_left]
    exact ⟨⟨List.prefix_append _ _, payload.noBlank⟩, rfl⟩

/-- A line is read as it should be unless it is an event whose payload quotes the prefix. -/
theorem stripDataStreamPrefix_eq_textOf_iff {line : Bytes} :
    stripDataStreamPrefix line = textOf line ↔
      ∀ text, payload? line = some text → ¬ QuotesPrefix text := by
  rw [textOf]
  rcases hline : payload? line with - | text
  · exact iff_of_true rfl fun text h => by cases h
  · obtain ⟨payload, rfl, rfl⟩ := payload?_eq_some_iff.mp hline
    rw [Option.getD_some, stripDataStreamPrefix_event_eq_iff]
    refine ⟨fun h text htext => ?_, fun h => h _ rfl⟩
    rwa [← Option.some.inj htext]

/-! ### Reading a response -/

section UpTo

variable {α β : Type} {f g : α → β} {stops : β → Bool}

/-- Two readings of a list come to the same if and only if they agree as long as one goes on. -/
theorem upTo_map_eq_iff (l : List α) :
    upTo stops (l.map f) = (upTo (fun a => stops (g a)) l).map g ↔
      ∀ a ∈ upTo (fun a => stops (g a)) l, f a = g a := by
  induction l with
  | nil => exact iff_of_true rfl fun a ha => absurd ha List.not_mem_nil
  | cons a l ih =>
      rw [List.map_cons, upTo, upTo, List.map_cons, List.cons_eq_cons, List.forall_mem_cons]
      refine and_congr_right fun ha => ?_
      rw [ha]
      split
      · exact iff_of_true rfl fun a ha => absurd ha List.not_mem_nil
      · exact ih

end UpTo

section Run

variable {ResponseEntity : Type} {deserialize : Bytes → Except StreamError ResponseEntity}
  {isSseEventStream : Bool} {endSentinels : List Bytes} {stream : ObjectStream ResponseEntity}

/-- Nothing is read any more once the stream is over. -/
theorem foldl_observe_closed (hclosed : stream.closed = true) (notifications : List Notification) :
    notifications.foldl (ObjectStream.observe deserialize isSseEventStream endSentinels) stream
      = stream := by
  induction notifications with
  | nil => rfl
  | cons notification notifications ih =>
      have hobserve : stream.observe deserialize isSseEventStream endSentinels notification
          = stream := if_pos hclosed
      rw [List.foldl_cons, hobserve]
      exact ih

/-- From one stream to another, these texts are tested, and parsed unless they are sentinels. -/
structure Reads (endSentinels : List Bytes) (stream : ObjectStream ResponseEntity)
    (texts : List Bytes) (stream' : ObjectStream ResponseEntity) : Prop where
  tested : stream'.tested = stream.tested ++ texts
  parsed : stream'.parsed
    = stream.parsed ++ texts.filter fun text => !isEndSentinels text endSentinels

theorem Reads.refl (stream : ObjectStream ResponseEntity) : Reads endSentinels stream [] stream :=
  ⟨(List.append_nil _).symm, (List.append_nil _).symm⟩

theorem Reads.trans {stream' stream'' : ObjectStream ResponseEntity} {texts texts' : List Bytes}
    (h : Reads endSentinels stream texts stream')
    (h' : Reads endSentinels stream' texts' stream'') :
    Reads endSentinels stream (texts ++ texts') stream'' where
  tested := by rw [h'.tested, h.tested, List.append_assoc]
  parsed := by rw [h'.parsed, h.parsed, List.filter_append, List.append_assoc]

/-- The step for a line: its text is read, and may end the stream. -/
theorem reads_observe (hopen : stream.closed = false) (chunkString : Bytes) :
    Reads endSentinels stream [stripDataStreamPrefix chunkString]
        (stream.observe deserialize true endSentinels (.onNext chunkString)) ∧
      (stream.observe deserialize true endSentinels (.onNext chunkString)).closed
        = ends deserialize endSentinels (stripDataStreamPrefix chunkString) := by
  have hobserve : stream.observe deserialize true endSentinels (.onNext chunkString)
      = stream.test deserialize endSentinels (stripDataStreamPrefix chunkString) := by
    rw [ObjectStream.observe.eq_def, if_neg (Bool.eq_false_iff.mp hopen)]
    rfl
  rw [hobserve, ObjectStream.test, ends]
  generalize stripDataStreamPrefix chunkString = text
  cases hend : isEndSentinels text endSentinels with
  | true => exact ⟨⟨rfl, by simp [hend]⟩, rfl⟩
  | false =>
      rw [if_neg Bool.false_ne_true, ObjectStream.parse]
      cases deserialize text with
      | ok entity => exact ⟨⟨rfl, by simp [hend]⟩, hopen⟩
      | error error => exact ⟨⟨rfl, by simp [hend]⟩, rfl⟩

/-- The run over lines, by induction: it reads up to the first text that ends the stream. -/
theorem reads_foldl (hopen : stream.closed = false) (lines : List Bytes) :
    Reads endSentinels stream
      (upTo (ends deserialize endSentinels) (lines.map stripDataStreamPrefix))
      ((lines.map Notification.onNext).foldl (ObjectStream.observe deserialize true endSentinels)
        stream) := by
  induction lines generalizing stream with
  | nil => exact .refl stream
  | cons line lines ih =>
      obtain ⟨hstep, hclosed⟩ := @reads_observe _ deserialize endSentinels stream hopen line
      rw [List.map_cons, List.map_cons, upTo, List.foldl_cons, ← List.singleton_append]
      refine hstep.trans ?_
      split
      · rename_i hends
        rw [foldl_observe_closed (hclosed.trans hends)]
        exact .refl _
      · rename_i hends
        exact ih (hclosed.trans (Bool.eq_false_iff.mpr hends))

/-- The end of the response reads nothing. -/
theorem reads_last {notification : Notification}
    (hlast : ∀ chunkString, notification ≠ .onNext chunkString) :
    Reads endSentinels stream []
      (stream.observe deserialize isSseEventStream endSentinels notification) := by
  rw [ObjectStream.observe.eq_def]
  split
  · exact .refl stream
  · cases notification with
    | onNext chunkString => exact absurd rfl (hlast chunkString)
    | onError error => exact ⟨(List.append_nil _).symm, (List.append_nil _).symm⟩
    | onCompleted => exact ⟨(List.append_nil _).symm, (List.append_nil _).symm⟩

theorem closing_ne_onNext (statusCode : Nat) (chunkString : Bytes) :
    closing statusCode ≠ .onNext chunkString := by
  rw [closing]
  split <;> exact fun h => by cases h

/-- What is passed on is the lines, and then how the response ended. -/
theorem exists_streamChunk (curlEasyStrerror : Nat → String) (transfer : Transfer)
    (lineBreaker : Bytes) (hne : lineBreaker ≠ []) :
    ∃ last : Notification, (∀ chunkString, last ≠ .onNext chunkString) ∧
      streamChunk curlEasyStrerror transfer lineBreaker hne
        = some ((linesOf transfer lineBreaker).map .onNext ++ [last]) := by
  rw [streamChunk_eq, linesOf]
  split
  · exact ⟨closing transfer.statusCode, closing_ne_onNext transfer.statusCode, rfl⟩
  · refine ⟨_, ?_, rfl⟩
    intro chunkString h
    cases h

/-- **What is read of a response**: the stripped lines, up to the first that ends the stream. -/
theorem exists_streamChunkObject (curlEasyStrerror : Nat → String) (transfer : Transfer)
    (lineBreaker : Bytes) (hne : lineBreaker ≠ []) :
    ∃ stream, streamChunkObject deserialize true endSentinels curlEasyStrerror transfer lineBreaker
        hne = some stream ∧
      Reads endSentinels {} (upTo (ends deserialize endSentinels)
        ((linesOf transfer lineBreaker).map stripDataStreamPrefix)) stream := by
  obtain ⟨last, hnot, hstream⟩ := exists_streamChunk curlEasyStrerror transfer lineBreaker hne
  have hlines := @reads_foldl _ deserialize endSentinels ({} : ObjectStream ResponseEntity) rfl
    (linesOf transfer lineBreaker)
  have hread := hlines.trans (@reads_last _ deserialize true endSentinels _ last hnot)
  rw [List.append_nil] at hread
  refine ⟨_, ?_, hread⟩
  rw [streamChunkObject, hstream, Option.map_some, List.foldl_append]
  rfl

end Run

/-- **Payloads come through** if and only if they do not quote the prefix of an event: each by
itself, and all that should be read of a response. -/
theorem passesPayloads_iff (payload : Payload) {ResponseEntity : Type}
    (deserialize : Bytes → Except StreamError ResponseEntity) (endSentinels : List Bytes)
    (curlEasyStrerror : Nat → String) (transfer : Transfer) (lineBreaker : Bytes)
    (hne : lineBreaker ≠ []) :
    (stripDataStreamPrefix payload.event = payload.text ↔ ¬ QuotesPrefix payload.text) ∧
    (PassesPayloads deserialize endSentinels curlEasyStrerror transfer lineBreaker hne ↔
      ∀ text ∈ payloadsRead deserialize endSentinels transfer lineBreaker,
        ¬ QuotesPrefix text) := by
  refine ⟨stripDataStreamPrefix_event_eq_iff payload, ?_⟩
  obtain ⟨stream, hstream, hread⟩ := @exists_streamChunkObject _ deserialize endSentinels
    curlEasyStrerror transfer lineBreaker hne
  have hcondition : (∀ text ∈ payloadsRead deserialize endSentinels transfer lineBreaker,
        ¬ QuotesPrefix text) ↔
      ∀ line ∈ linesRead deserialize endSentinels transfer lineBreaker,
        stripDataStreamPrefix line = textOf line := by
    simp only [payloadsRead, List.mem_filterMap, stripDataStreamPrefix_eq_textOf_iff]
    constructor
    · intro h line hline text htext
      exact h text ⟨line, hline, htext⟩
    · rintro h text ⟨line, hline, htext⟩
      exact h line hline text htext
  rw [hcondition, linesRead, ← upTo_map_eq_iff, ← linesRead]
  constructor
  · rintro ⟨stream', hstream', htested, -⟩
    obtain rfl := Option.some.inj (hstream.symm.trans hstream')
    exact hread.tested.symm.trans htested
  · intro h
    exact ⟨stream, hstream, hread.tested.trans h, by rw [hread.parsed, h]; rfl⟩

/-- An object and the end sentinel, in a response that is cut between them. -/
theorem passesPayloads_done :
    PassesPayloads
      (fun text => if text = ascii "\x7b\x7d" then .ok ()
        else .error (.instinct "failed to parse protobuf message from response body"))
      [ascii "[DONE]"] (fun _ => "")
      ⟨0, 200, [ascii "data: \x7b\x7d\n\nda", ascii "ta: [DONE]\n\n"]⟩ (ascii "\n\n")
      (by decide) := by
  refine (passesPayloads_iff ⟨[], rfl⟩ _ _ _ _ _ _).2.mpr fun text htext => ?_
  have htexts : text ∈ [ascii "\x7b\x7d", ascii "[DONE]"] := htext
  rcases List.mem_pair.mp htexts with rfl | rfl
  · exact not_quotesPrefix_of_notMem (by decide)
  · exact not_quotesPrefix_of_notMem (by decide)

/-- The payload `{"text":"data: x"}` comes out without its prefix. -/
def quoting : Payload where
  text := ascii "\x7b\"text\":\"data: x\"\x7d"
  noBlank := rfl

theorem quoting_not_passed :
    stripDataStreamPrefix quoting.event = ascii "\x7b\"text\":\"x\"\x7d" ∧
      ¬ ∀ payload : Payload, stripDataStreamPrefix payload.event = payload.text := by
  have hstrip : stripDataStreamPrefix quoting.event = ascii "\x7b\"text\":\"x\"\x7d" := rfl
  refine ⟨hstrip, fun h => ?_⟩
  have hsame := congrArg List.length (hstrip.symm.trans (h quoting))
  cases hsame

end Instinct.EventPayloads
