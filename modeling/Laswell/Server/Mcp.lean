import Mathlib
import Laswell.Base.Lines
import Laswell.Canonical.Sequences
import Laswell.Document.Reading

/-!
# Laswell.Server.Mcp

The server over standard input (`McpServer`): a request a line, at most one response a line. The
JSON library is a parameter (`JsonText`), and so is what the tools do: each is asked with the world
it finds and leaves another one.

* `State`: the revision in force, which is one the server supports, and the world of the tools.
* `handleRequest`: one request. What it throws is answered by the loop.
* `run`: the loop, which nothing catches around the writing of a response.
-/

namespace Laswell
namespace Server

open Base Canonical Document

/-! ## The JSON library -/

/-- How `json::parse` ends: a text that is no document is a `parse_error`, and one with a number no
`double` holds is another exception. -/
inductive Parsed where
  | document (j : Json)
  | parseError
  | exception (what : Bytes)

/-- What the server asks of `nlohmann::json`. What is thrown is its message: `valueWhat` is thrown
where `value` is asked of something that is not an object. -/
structure JsonText where
  parse : Bytes → Parsed
  dump : Json → Except Bytes Bytes
  valueWhat : Json → Bytes

/-- What the library promises: it reads and writes UTF-8 only, writes one line, and says so in
words that can be written. -/
structure JsonText.Documented (lib : JsonText) : Prop where
  parsed : ∀ line j, lib.parse line = .document j → ∀ s ∈ j.strings, WellFormed s
  unparsed : ∀ line what, lib.parse line = .exception what → WellFormed what
  dumps : ∀ j, (∃ t, lib.dump j = .ok t) ↔ ∀ s ∈ j.strings, WellFormed s
  dumped : ∀ j t, lib.dump j = .ok t → WellFormed t ∧ 0x0A ∉ t
  refused : ∀ j what, lib.dump j = .error what → WellFormed what
  valued : ∀ j, WellFormed (lib.valueWhat j)

/-- `json{{name, value}, …}`: the members stand in the order of `std::map`. -/
def objectOf (ms : List (String × Json)) : Json :=
  .object ((ms.map fun m => (ascii m.1, m.2)).insertionSort fun a b => byteLe a.1 b.1 = true)

def word (s : String) : Json := .string (ascii s)

/-! ## Revisions -/

def supportedProtocols : List Bytes :=
  [ascii "2024-11-05", ascii "2025-03-26", ascii "2025-06-18", ascii "2025-11-25"]

abbrev Protocol := {p : Bytes // p ∈ supportedProtocols}

def kDefaultProtocol : Protocol := ⟨ascii "2025-06-18", by decide⟩

/-- `supported_protocols().back()` -/
def newestProtocol : Protocol := ⟨ascii "2025-11-25", by decide⟩

/-- `protocol_ >= "…"` -/
def Protocol.since (p : Protocol) (revision : String) : Bool := byteLe (ascii revision) p.1

/-- `negotiate_protocol` -/
def negotiateProtocol (params : Json) : Protocol :=
  if !isObject params || !has params "protocolVersion" ||
      !isString (at_ params "protocolVersion") then kDefaultProtocol
  else
    let requested := text (at_ params "protocolVersion")
    (supportedProtocols.attach.find? fun p => p.1 = requested).getD newestProtocol

/-! ## Tools -/

structure Hints where
  readOnly : Bool := true
  destructive : Bool := false
  idempotent : Bool := true
  longRunning : Bool := false

/-- How a call of a tool ends. -/
inductive Invoked where
  | payload (j : Json)
  | configError (what : Bytes)
  | exception (what : Bytes)

structure ToolDef (σ : Type) where
  name : Bytes
  description : Bytes
  inputSchema : Json
  outputSchema : Option Json := none
  hints : Hints := {}
  invoke : Json → σ → Invoked × σ

structure State (σ : Type) where
  protocol : Protocol := kDefaultProtocol
  world : σ

/-! ## Responses -/

def kParseError : Int64 := -32700
def kInvalidRequest : Int64 := -32600
def kMethodNotFound : Int64 := -32601
def kInvalidParams : Int64 := -32602

def makeResult (id result : Json) : Json :=
  objectOf [("jsonrpc", word "2.0"), ("id", id), ("result", result)]

def makeError (id : Json) (code : Int64) (message : Bytes) : Json :=
  objectOf [("jsonrpc", word "2.0"), ("id", id),
    ("error", objectOf [("code", .numberInteger code), ("message", .string message)])]

def errorPayload (error hint : Bytes) : Json :=
  objectOf [("error", .string error), ("hint", .string hint)]

def configHint : Bytes :=
  ascii "This is a configuration problem, not a database one: no connection was attempted. See " ++
  ascii "CONFIGURATION in man pg_laswell_mcp."

def statementHint : Bytes := ascii "See the server log for the failing statement."

def instructions : Bytes :=
  ascii "Applies signed migration specs to PostgreSQL. Plan before you apply: planMigration " ++
  ascii "measures the target and shows the statements it would run, and startMigration executes " ++
  ascii "exactly that plan. Long-running work returns a jobId immediately; poll jobStatus for " ++
  ascii "progress, contention and an ETA. Use pg_licht alongside this server to read load, locks " ++
  ascii "and capacity."

section

variable {σ : Type} (lib : JsonText)

def toolFrame (protocol : Protocol) (payload : Json) (isError : Bool) (text : Bytes) : Json :=
  objectOf ((if protocol.since "2025-06-18" then [("structuredContent", payload)] else []) ++
    [("content", .array [objectOf [("type", word "text"), ("text", .string text)]]),
      ("isError", .boolean isError)])

/-- `tool_result`, and with `isError` what `tool_error` makes of it. -/
def toolResult (protocol : Protocol) (payload : Json) (isError : Bool) : Except Bytes Json :=
  (lib.dump payload).map (toolFrame protocol payload isError)

/-- `make_result(id, tool_result(t.invoke(arguments)))`, and what its handlers make of an exception.
A payload that is not UTF-8 is one more exception; the text of an exception that is not UTF-8
throws again, out of the handler. -/
def answer (protocol : Protocol) : Invoked → Except Bytes Json
  | .payload j =>
    match toolResult lib protocol j false with
    | .ok result => .ok result
    | .error what => toolResult lib protocol (errorPayload what statementHint) true
  | .configError what => toolResult lib protocol (errorPayload what configHint) true
  | .exception what => toolResult lib protocol (errorPayload what statementHint) true

/-- The name a call asks for. -/
def calledName (params : Json) : Option Bytes :=
  if !isObject params || !has params "name" || !isString (at_ params "name") then none
  else some (text (at_ params "name"))

/-- What it passes: a member that is no object counts as none. -/
def callArguments (params : Json) : Json :=
  if has params "arguments" && isObject (at_ params "arguments") then at_ params "arguments"
  else .object []

/-- A server: its tools, and the version it was built as. -/
structure McpServer (σ : Type) where
  tools : List (ToolDef σ)
  version : Bytes

variable (server : McpServer σ)

def toolsCall (id params : Json) (st : State σ) : Except Bytes Json × State σ :=
  match calledName params with
  | none => (.ok (makeError id kInvalidParams (ascii "tools/call requires a tool name")), st)
  | some name =>
    match server.tools.find? fun t => t.name == name with
    | none => (.ok (makeError id kMethodNotFound (ascii "Unknown tool: " ++ name)), st)
    | some t =>
      let (invoked, world) := t.invoke (callArguments params) st.world
      ((answer lib st.protocol invoked).map (makeResult id), { st with world })

def initializeResult (protocol : Protocol) : Json :=
  objectOf [("protocolVersion", .string protocol.1),
    ("capabilities", objectOf [("tools", .object [])]),
    ("serverInfo", objectOf [("name", word "pg-laswell"), ("version", .string server.version)]),
    ("instructions", .string instructions)]

def toolEntry (protocol : Protocol) (t : ToolDef σ) : Json :=
  objectOf ([("name", .string t.name), ("description", .string t.description),
      ("inputSchema", t.inputSchema)] ++
    (match t.outputSchema with
      | some schema => if protocol.since "2025-06-18" then [("outputSchema", schema)] else []
      | none => []) ++
    (if protocol.since "2025-03-26" then
      [("annotations", objectOf [("readOnlyHint", .boolean t.hints.readOnly),
        ("destructiveHint", .boolean t.hints.destructive),
        ("idempotentHint", .boolean t.hints.idempotent)])]
    else []))

def toolsList (protocol : Protocol) : Json :=
  objectOf [("tools", .array (server.tools.map (toolEntry protocol)))]

def paramsOf (req : Json) : Json := if has req "params" then at_ req "params" else .object []

/-- The response, none for a notification, or what is thrown. -/
def handleRequest (req : Json) (st : State σ) : Except Bytes (Option Json) × State σ :=
  if !isObject req then (.error (lib.valueWhat req), st)
  else
    let id := at_ req "id"
    if !has req "method" || !isString (at_ req "method") then
      (.ok (some (makeError id kInvalidRequest (ascii "Invalid Request"))), st)
    else
      let method := text (at_ req "method")
      let params := paramsOf req
      if method = ascii "initialize" then
        let protocol := negotiateProtocol params
        (.ok (some (makeResult id (initializeResult server protocol))), { st with protocol })
      else if method = ascii "notifications/initialized" then (.ok none, st)
      else if method = ascii "ping" then (.ok (some (makeResult id (.object []))), st)
      else if method = ascii "tools/list" then
        (.ok (some (makeResult id (toolsList server st.protocol))), st)
      else if method = ascii "tools/call" then
        let (response, st) := toolsCall lib server id params st
        (response.map some, st)
      else if !has req "id" then (.ok none, st)
      else (.ok (some (makeError id kMethodNotFound (ascii "Method not found: " ++ method))), st)

/-- The handler of the loop: an exception is answered under no id. -/
def caught : Except Bytes (Option Json) → Option Json
  | .ok response => response
  | .error what => some (makeError .null kInvalidRequest what)

/-- What the loop makes of a line that is not empty. -/
def respond (line : Bytes) (st : State σ) : Option Json × State σ :=
  match lib.parse line with
  | .parseError => (some (makeError .null kParseError (ascii "Parse error")), st)
  | .exception what => (caught (.error what), st)
  | .document req =>
    let (response, st) := handleRequest lib server req st
    (caught response, st)

/-- How the loop ended: at the end of the input, or by an exception of the writing. -/
structure Run (σ : Type) where
  output : Bytes
  state : State σ
  thrown : Option Bytes

def loop : List Bytes → State σ → Run σ
  | [], st => ⟨[], st, none⟩
  | line :: lines, st =>
    if line.isEmpty then loop lines st
    else
      match respond lib server line st with
      | (none, st) => loop lines st
      | (some response, st) =>
        match lib.dump response with
        | .error what => ⟨[], st, some what⟩
        | .ok text =>
          let rest := loop lines st
          { rest with output := text ++ 0x0A :: rest.output }

def run (input : Bytes) (st : State σ) : Run σ := loop lib server (getlines 0x0A input) st

end

end Server
end Laswell
