import Mathlib
import AbbeyBot.Library.Result
import AbbeyBot.Library.Text
import AbbeyBot.Llm.ChannelMarkers
import AbbeyBot.Wdbx.Store

/-! # The stream of a reply

A reply arrives as server-sent events, in network chunks. Bytes are kept until their line is complete;
a line is a comment, or an event with a piece of text or of tool calls, or the terminal marker. Behind
the terminal marker nothing may follow. -/

namespace AbbeyBot.Llm

open AbbeyBot.Library.Result AbbeyBot.Library.Text AbbeyBot.Library.Word
open AbbeyBot.Wdbx (Value)

/-- The JSON library, with its numbers and its reader; and the table of Unicode for `{:?}`. -/
structure JsonReader where
  Number : Type
  asU64 : Number → Option ℕ
  read : List Char → Except String (Value Number)
  /-- The characters that print, and extend no other. -/
  printable : Char → Bool

variable {J : JsonReader}

/-! ### Values -/

/-- `Value::get`, of an object. -/
def Value.field {N : Type} (v : Value N) (key : String) : Option (Value N) :=
  v.object?.bind fun fields => fields.lookup key

def Value.isNull {N : Type} : Value N → Bool
  | .null => true
  | _ => false

/-- `pointer("/choices/0")`. -/
def firstChoice {N : Type} (v : Value N) : Option (Value N) :=
  (Value.field v "choices").bind fun choices =>
    match choices with
    | .array items => items.head?
    | .object fields => fields.lookup "0"
    | _ => none

/-! ### Bytes -/

def isContinuation (b : ℕ) : Bool := 0x80 ≤ b && b < 0xC0

/-- `str::from_utf8`: the shortest encodings of scalar values. -/
def fromUtf8 : List UInt8 → Option (List Char)
  | [] => some []
  | b₀ :: rest₀ =>
    if b₀.toNat < 0x80 then (fromUtf8 rest₀).map (Char.ofNat b₀.toNat :: ·)
    else match rest₀ with
      | [] => none
      | b₁ :: rest₁ =>
        if !isContinuation b₁.toNat then none
        else if 0xC2 ≤ b₀.toNat ∧ b₀.toNat < 0xE0 then
          (fromUtf8 rest₁).map (Char.ofNat ((b₀.toNat - 0xC0) * 0x40 + (b₁.toNat - 0x80)) :: ·)
        else match rest₁ with
          | [] => none
          | b₂ :: rest₂ =>
            let three := (b₀.toNat - 0xE0) * 0x1000 + (b₁.toNat - 0x80) * 0x40 + (b₂.toNat - 0x80)
            if !isContinuation b₂.toNat then none
            else if 0xE0 ≤ b₀.toNat ∧ b₀.toNat < 0xF0 then
              if 0x800 ≤ three ∧ ¬ (0xD800 ≤ three ∧ three < 0xE000) then
                (fromUtf8 rest₂).map (Char.ofNat three :: ·)
              else none
            else match rest₂ with
              | [] => none
              | b₃ :: rest₃ =>
                let four := (b₀.toNat - 0xF0) * 0x40000 + (b₁.toNat - 0x80) * 0x1000 +
                  (b₂.toNat - 0x80) * 0x40 + (b₃.toNat - 0x80)
                if !isContinuation b₃.toNat then none
                else if 0xF0 ≤ b₀.toNat ∧ 0x10000 ≤ four ∧ four < 0x110000 then
                  (fromUtf8 rest₃).map (Char.ofNat four :: ·)
                else none

/-- `u8::is_ascii_whitespace`. -/
def isAsciiWhitespace (b : UInt8) : Bool := b ∈ [9, 10, 12, 13, 32]

/-- A buffer, as the loop of `feed` drains it: its complete lines, and what is left. -/
def splitLines : List UInt8 → List (List UInt8) × List UInt8
  | [] => ([], [])
  | b :: rest =>
    if b = 10 then ([] :: (splitLines rest).1, (splitLines rest).2)
    else match (splitLines rest).1 with
      | [] => ([], b :: (splitLines rest).2)
      | line :: more => ((b :: line) :: more, (splitLines rest).2)

/-- A line without the carriage return at its end. -/
def stripReturn (line : List UInt8) : List UInt8 :=
  if line.getLast? = some 13 then line.dropLast else line

/-! ### Tool calls -/

def maxToolCallsPerTurn : ℕ := 8

structure StreamedCall where
  id : String
  callType : String
  name : String
  arguments : String
  deriving DecidableEq, Repr

def StreamedCall.default : StreamedCall := ⟨"", "", "", ""⟩

structure ToolCall (J : JsonReader) where
  id : String
  name : String
  arguments : Value J.Number

/-- `required`. -/
def required (v : Option (Value J.Number)) (field : String) (i : ℕ) : Except String String :=
  orErr ((v.bind Value.string?).filter fun s => !isBlank s)
    ("backend tool call " ++ toString i ++ " carried no nonempty " ++ field)

/-- A tool call of the Anthropic shape. -/
def anthropicCall (i : ℕ) (b : Value J.Number) : Except String (ToolCall J) := do
  let id ← required (Value.field b "id") "id" i
  let name ← required (Value.field b "name") "name" i
  let input ← orErr ((Value.field b "input").filter fun v => v.object?.isSome)
    ("Anthropic tool call " ++ toString i ++ " input was not an object")
  return ⟨id, name, input⟩

/-- The arguments of a tool call: an object, or one that is encoded as a string. -/
def callArguments (i : ℕ) : Option (Value J.Number) → Except String (Value J.Number)
  | some (.string s) => (J.read s.toList).mapError fun e =>
      "backend tool call " ++ toString i ++ " carried invalid JSON arguments: " ++ e
  | some (.object fields) => .ok (.object fields)
  | _ => .error
      ("backend tool call " ++ toString i ++ " arguments were not a JSON object or encoded object")

/-- A tool call of the other shape. -/
def openAiCall (i : ℕ) (c : Value J.Number) : Except String (ToolCall J) := do
  ensure (c.object?.isSome = true) ("backend tool call " ++ toString i ++ " was not an object")
  ensure ((Value.field c "type").bind Value.string? = some "function")
    ("backend tool call " ++ toString i ++ " did not declare type function")
  let id ← required (Value.field c "id") "id" i
  let function ← orErr ((Value.field c "function").filter fun v => v.object?.isSome)
    ("backend tool call " ++ toString i ++ " carried no function object")
  let name ← required (Value.field function "name") "function name" i
  let arguments ← callArguments i (Value.field function "arguments")
  ensure (arguments.object?.isSome = true)
    ("backend tool call " ++ toString i ++ " arguments were not a JSON object")
  return ⟨id, name, arguments⟩

/-- `bounded_calls`. -/
def boundedCalls (calls : List (Value J.Number)) (limit : ℕ) : Except String (List (ToolCall J)) := do
  ensure (calls.length ≤ limit) ("the backend returned " ++ toString calls.length ++
    " tool calls; the per-turn limit is " ++ toString limit)
  let isAnthropic :=
    ((calls.head?.bind fun v => Value.field v "type").bind Value.string? = some "tool_use") ∨
      calls.any fun v => (Value.field v "input").isSome
  calls.zipIdx.mapM fun (c, i) => if isAnthropic then anthropicCall i c else openAiCall i c

/-- A character inside the quotes of `{:?}`. -/
def debugChar (printable : Char → Bool) : Char → List Char
  | '\x00' => ['\\', '0']
  | '\t' => ['\\', 't']
  | '\n' => ['\\', 'n']
  | '\r' => ['\\', 'r']
  | '"' => ['\\', '"']
  | '\\' => ['\\', '\\']
  | c => if printable c then [c] else "\\u\x7b".toList ++ Nat.toDigits 16 c.toNat ++ ['\x7d']

/-- `{:?}` of a string. -/
def debugText (printable : Char → Bool) (s : String) : String :=
  "\"" ++ String.ofList (s.toList.flatMap (debugChar printable)) ++ "\""

/-- `validate_terminal`. -/
def validateTerminal (printable : Char → Bool) (finish : String) (calls : ℕ) : Except String Unit :=
  if finish ∈ ["stop", "end_turn", "stop_sequence"] then
    ensure (calls = 0) "the backend marked a tool-bearing response as plain completion"
  else if finish ∈ ["tool_calls", "tool_use"] then
    ensure (0 < calls) "the backend claimed tool completion without a valid tool call"
  else if finish ∈ ["length", "max_tokens"] then
    .error "the backend exhausted its output limit before completing the response"
  else if finish = "content_filter" then
    .error "the backend stopped without a complete response because of its content filter"
  else if finish = "model_context_window_exceeded" then
    .error "Anthropic exhausted the model context window before completing the response"
  else if finish = "refusal" then .error "Anthropic refused the request without a complete answer"
  else if finish = "pause_turn" then .error "Anthropic paused the turn instead of completing it"
  else .error ("the backend returned unsupported finish reason " ++ debugText printable finish)

/-! ### The accumulator -/

/-- What the lines of a stream build up: the accumulator without its buffer. -/
structure Events where
  done : Bool
  finishReason : Option String
  calls : List StreamedCall
  markers : Stripper
  deriving DecidableEq

def Events.default : Events := ⟨false, none, [], .default⟩

structure SseAccumulator where
  buffer : List UInt8
  events : Events
  deriving DecidableEq

/-- `SseAccumulator::default`. -/
def SseAccumulator.default : SseAccumulator := ⟨[], .default⟩

/-- `optional_string`. -/
def optionalString (obj : Value J.Number) (field : String) (index : ℕ) :
    Except String (Option String) :=
  match Value.field obj field with
  | none => .ok none
  | some .null => .ok none
  | some (.string s) => .ok (some s)
  | some _ => .error
      ("backend streamed tool call " ++ toString index ++ " with a non-string " ++ field)

/-- A string that grows by a piece, if there is one. -/
def appended (s : String) (piece : Option String) : String := s ++ piece.getD ""

/-- The name and the arguments of a piece of a tool call. -/
def functionPiece (function : Value J.Number) (index : ℕ) (slot : StreamedCall) :
    Except String StreamedCall := do
  let name ← optionalString function "name" index
  let arguments ← optionalString function "arguments" index
  return { slot with
    name := appended slot.name name
    arguments := appended slot.arguments arguments }

/-- A piece of a tool call goes to the call with its index. -/
def toolCallPiece (call : Value J.Number) (calls : List StreamedCall) :
    Except String (List StreamedCall) := do
  let index ← orErr (((Value.field call "index").bind Value.number?).bind J.asU64)
    "the backend streamed a tool call without a valid index"
  ensure (index < maxToolCallsPerTurn) ("the backend tool-call index " ++ toString index ++
    " exceeded the per-turn limit of " ++ toString maxToolCallsPerTurn)
  let calls := calls ++ List.replicate (index + 1 - calls.length) StreamedCall.default
  let slot := calls.getD index StreamedCall.default
  let id ← optionalString call "id" index
  let callType ← optionalString call "type" index
  let slot := { slot with
    id := appended slot.id id
    callType := appended slot.callType callType }
  let slot ← match Value.field call "function" with
    | none => pure slot
    | some function => do
      ensure (function.object?.isSome = true)
        ("backend streamed tool call " ++ toString index ++ " with a non-object function")
      functionPiece function index slot
  return calls.set index slot

/-- The pieces of tool calls of an event. -/
def toolCallPieces (delta : Value J.Number) (finish : Option String) (calls : List StreamedCall) :
    Except String (List StreamedCall) := do
  let field := Value.field delta "tool_calls"
  ensure (¬ field.any fun v => !Value.isNull v && !v.array?.isSome)
    "the backend stream tool_calls field was not an array"
  match field.bind Value.array? with
  | none => return calls
  | some pieces => do
    ensure (finish = none ∨ pieces = [])
      "the backend combined a terminal finish reason with more tool data"
    ensure (pieces.length ≤ maxToolCallsPerTurn) ("the backend streamed more than " ++
      toString maxToolCallsPerTurn ++ " tool calls in one event")
    pieces.foldlM (fun calls call => toolCallPiece call calls) calls

/-- `parsed_tool_calls`. -/
def parsedToolCalls (J : JsonReader) (a : Events) : Except String (List (ToolCall J)) :=
  boundedCalls (a.calls.map fun call => .object [("id", .string call.id),
    ("type", .string call.callType), ("function", .object [("name", .string call.name),
      ("arguments", .string call.arguments)])]) maxToolCallsPerTurn

/-- `SseAccumulator::validate_terminal`. -/
def Events.validateTerminal (J : JsonReader) (a : Events) : Except String Unit := do
  let finish ← orErr a.finishReason "the backend stream ended without a finish reason"
  let calls ← parsedToolCalls J a
  Llm.validateTerminal J.printable finish calls.length

/-- The text of an event is pushed through the markers. -/
def textPiece (delta : Value J.Number) (finish : Option String) (markers : Stripper) :
    Except String (Stripper × List Char) :=
  match ((Value.field delta "content").bind Value.string?).filter fun text => text ≠ "" with
  | none => .ok (markers, [])
  | some text => do
    ensure (finish = none) "the backend combined a terminal finish reason with more text"
    return markers.push text.toList

/-- An event of `process_line`. -/
def Events.processEvent (J : JsonReader) (payload : List Char) (a : Events) :
    Except String (Events × List Char) := do
  ensure (a.finishReason = none) "the backend sent an event after its finish reason"
  let value ← (J.read payload).mapError fun e => "the backend stream event was not JSON: " ++ e
  let choice ← orErr (firstChoice value) "the backend stream event carried no choice"
  let finish := (Value.field choice "finish_reason").bind Value.string?
  let delta := (Value.field choice "delta").getD .null
  let (markers, visible) ← textPiece delta finish a.markers
  let calls ← toolCallPieces delta finish a.calls
  return ({ a with
    markers := markers
    calls := calls
    finishReason := finish.or a.finishReason }, visible)

/-- The terminal marker: what was held back is emitted. -/
def Events.terminal (J : JsonReader) (a : Events) :
    Except String (Events × List Char) := do
  a.validateTerminal J
  return ({ a with done := true }, a.markers.finish)

/-- A blank line, or a comment. -/
def isIgnored (line : List Char) : Bool := line.all isWhitespace || line.head? == some ':'

/-- `process_line`: what was built up, and the text that is emitted. -/
def Events.processLine (J : JsonReader) (line : List UInt8) (a : Events) :
    Except String (Events × List Char) := do
  let line ← orErr (fromUtf8 line) "the backend stream contained invalid UTF-8"
  if isIgnored line then return (a, [])
  else do
    ensure (a.done = false) "the backend sent an event after the stream terminal marker"
    ensure ("data:".toList.isPrefixOf line = true)
      "the backend stream contained an unsupported SSE field"
    let payload := (trim (String.ofList (line.drop 5))).toList
    if payload = "[DONE]".toList then a.terminal J else a.processEvent J payload

/-- The lines of a chunk. -/
def Events.processLines (J : JsonReader) : List (List UInt8) → Events →
    Except String (Events × List Char)
  | [], a => return (a, [])
  | line :: lines, a => do
    let (a, text) ← a.processLine J (stripReturn line)
    let (a, more) ← processLines J lines a
    return (a, text ++ more)

def afterMarker : String := "the backend sent data after the stream terminal marker"

/-- `SseAccumulator::feed`. -/
def SseAccumulator.feed (J : JsonReader) (chunk : List UInt8) (a : SseAccumulator) :
    Except String (SseAccumulator × List Char) :=
  if a.events.done then do
    ensure (chunk.all isAsciiWhitespace = true) afterMarker
    return (a, [])
  else do
    let (lines, left) := splitLines (a.buffer ++ chunk)
    let (events, text) ← a.events.processLines J lines
    ensure (events.done = true → left.all isAsciiWhitespace = true) afterMarker
    return (⟨left, events⟩, text)

/-- `SseAccumulator::finish`. -/
def SseAccumulator.finish (a : SseAccumulator) : Except String Unit := do
  ensure (a.events.done = true) "the backend stream ended before the [DONE] terminal marker"
  ensure (a.buffer.all isAsciiWhitespace = true) "the backend stream ended with an incomplete event"

/-- `SseAccumulator::tool_calls`. -/
def SseAccumulator.toolCalls (J : JsonReader) (a : SseAccumulator) :
    Except String (List (ToolCall J)) := do
  a.finish
  parsedToolCalls J a.events

/-- The chunks are fed one after the other. -/
def SseAccumulator.feedAll (J : JsonReader) : List (List UInt8) → SseAccumulator →
    Except String (SseAccumulator × List Char)
  | [], a => return (a, [])
  | chunk :: chunks, a => do
    let (a, text) ← a.feed J chunk
    let (a, more) ← a.feedAll J chunks
    return (a, text ++ more)

/-- The text and the tool calls of what is left of a stream, in these chunks. -/
def SseAccumulator.receive (J : JsonReader) (chunks : List (List UInt8)) (a : SseAccumulator) :
    Except String (List Char × List (ToolCall J)) := do
  let (a, text) ← a.feedAll J chunks
  a.finish
  let calls ← a.toolCalls J
  return (text, calls)

end AbbeyBot.Llm
