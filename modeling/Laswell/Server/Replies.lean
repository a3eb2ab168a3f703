import Laswell.Server.Compact

/-!
# Laswell.Server.Replies

Which lines are answered, with what, and what they leave behind, over every input.

* `calls`, `callIn`, `offerIn`: what a line asks for, read off the line alone.
* `refusalOf`: the error of a line that gets no result.
* `Reply`: what the answer to a line has to do with the line.
* `respond_spec`: one line.
* `run_replies`: the whole input. The answers are the lines of the output, in order, and the loop
  reads to the end.
-/

namespace Laswell
namespace Server

open Base Canonical Document

/-! ## What a line asks for -/

section

variable {σ : Type} (lib : JsonText)

/-- The document of a line, if it is one. -/
def JsonText.document (line : Bytes) : Option Json :=
  match lib.parse line with
  | .document j => some j
  | .parseError => none
  | .exception _ => none

def methodOf (req : Json) : Option Bytes :=
  if isObject req && has req "method" && isString (at_ req "method") then
    some (text (at_ req "method"))
  else none

/-- The methods that are answered with or without an id. -/
def alwaysAnswered : List Bytes :=
  [ascii "initialize", ascii "ping", ascii "tools/list", ascii "tools/call"]

/-- A request that is answered: one without a method, one whose method is always answered, and any
other one with an id. The notification that the client is ready is never answered, even with one. -/
def awaits (req : Json) : Bool :=
  match methodOf req with
  | none => true
  | some method =>
    method != ascii "notifications/initialized" &&
      (alwaysAnswered.contains method || has req "id")

/-- A line that is answered. -/
def calls (line : Bytes) : Bool :=
  !line.isEmpty && (lib.document line).all awaits

/-- The id a line is answered under. -/
def idOf (line : Bytes) : Json :=
  match lib.document line with
  | none => .null
  | some req => if isObject req then at_ req "id" else .null

/-- The error of a request with this method, which is not served: its code, and its message. -/
def unserved (req : Json) (method : Bytes) : Int64 × Bytes :=
  if method != ascii "tools/call" then
    (kMethodNotFound, ascii "Method not found: " ++ method)
  else
    match calledName (paramsOf req) with
    | none => (kInvalidParams, ascii "tools/call requires a tool name")
    | some name => (kMethodNotFound, ascii "Unknown tool: " ++ name)

/-- The error of a line that is refused. -/
def refusalOf (line : Bytes) : Int64 × Bytes :=
  match lib.parse line with
  | .parseError => (kParseError, ascii "Parse error")
  | .exception what => (kInvalidRequest, what)
  | .document req =>
    if !isObject req then (kInvalidRequest, lib.valueWhat req)
    else
      match methodOf req with
      | none => (kInvalidRequest, ascii "Invalid Request")
      | some method => unserved req method

/-- The request of a line, when its method is this one. -/
def requestOf (method : String) (line : Bytes) : Option Json :=
  if line.isEmpty then none
  else (lib.document line).filter fun req => methodOf req == some (ascii method)

/-- The call of a registered tool that a line asks for. -/
def callIn (tools : List (ToolDef σ)) (line : Bytes) : Option (ToolDef σ × Json) :=
  (requestOf lib "tools/call" line).bind fun req =>
    (calledName (paramsOf req)).bind fun name =>
      (tools.find? fun t => t.name == name).map fun t => (t, callArguments (paramsOf req))

/-- The revision a line brings into force. -/
def offerIn (line : Bytes) : Option Protocol :=
  (requestOf lib "initialize" line).map fun req => negotiateProtocol (paramsOf req)

/-- One call of a tool, as the world sees it. -/
def invokeOn (w : σ) (c : ToolDef σ × Json) : σ := (c.1.invoke c.2 w).2

/-- The state after these lines: the last revision that was negotiated, and a world in which each
call was made once, in order. -/
def stateAfter (tools : List (ToolDef σ)) (st : State σ) (lines : List Bytes) : State σ where
  protocol := (lines.filterMap (offerIn lib)).getLastD st.protocol
  world := (lines.filterMap (callIn lib tools)).foldl invokeOn st.world

/-- How a call fails: the text of the exception, which is the library's where the payload cannot be
written, and where the reader is sent. -/
inductive Fails : Invoked → Bytes → Bytes → Prop where
  | unwritten (j : Json) (what : Bytes) : lib.dump j = .error what →
      Fails (.payload j) what statementHint
  | configError (what : Bytes) : Fails (.configError what) what configHint
  | exception (what : Bytes) : Fails (.exception what) what statementHint

/-- The answer of a call: what the tool says, that it failed and how, or, where that is not UTF-8,
what the library makes of it. -/
inductive Called (protocol : Protocol) (id : Json) (invoked : Invoked) : Json → Prop where
  | said (j : Json) (text : Bytes) : invoked = .payload j → lib.dump j = .ok text →
      Called protocol id invoked (makeResult id (toolFrame protocol j false text))
  | failed (what hint text : Bytes) : Fails lib invoked what hint → WellFormed what →
      lib.dump (errorPayload what hint) = .ok text →
      Called protocol id invoked
        (makeResult id (toolFrame protocol (errorPayload what hint) true text))
  | garbled (what hint message : Bytes) : Fails lib invoked what hint → ¬ WellFormed what →
      lib.dump (errorPayload what hint) = .error message →
      Called protocol id invoked (makeError .null kInvalidRequest message)

/-- A line that is answered with a result although it calls no tool. -/
def Served (line : Bytes) : Prop :=
  ∃ method ∈ ["initialize", "ping", "tools/list"], (requestOf lib method line).isSome = true

/-- What the answer to a line has to do with it. -/
structure Reply (tools : List (ToolDef σ)) (st : State σ) (line : Bytes) (r : Json) : Prop where
  called : ∀ c, callIn lib tools line = some c →
    Called lib st.protocol (idOf lib line) (c.1.invoke c.2 st.world).1 r
  served : callIn lib tools line = none → Served lib line →
    ∃ result, r = makeResult (idOf lib line) result
  refused : callIn lib tools line = none → ¬ Served lib line →
    r = makeError (idOf lib line) (refusalOf lib line).1 (refusalOf lib line).2

/-! ## One line -/

variable {lib : JsonText} {server : McpServer σ}

/-- What the server was built with can be written. -/
structure McpServer.Spelled (server : McpServer σ) : Prop where
  version : WellFormed server.version
  tools : ∀ t ∈ server.tools, WellFormed t.name ∧ WellFormed t.description ∧
    Server.Spelled t.inputSchema ∧ ∀ schema ∈ t.outputSchema, Server.Spelled schema

theorem spelled_makeResult {id result : Json} (hid : Spelled id) (hresult : Spelled result) :
    Spelled (makeResult id result) :=
  spelled_objectOf (by
    simp only [List.forall_mem_cons, List.not_mem_nil, false_implies, implies_true, and_true]
    exact ⟨⟨by decide, spelled_string.mpr (wellFormed_ascii (by decide))⟩, ⟨by decide, hid⟩,
      by decide, hresult⟩)

theorem spelled_makeError {id : Json} {code : Int64} {message : Bytes} (hid : Spelled id)
    (hmessage : WellFormed message) : Spelled (makeError id code message) := by
  have herror : Spelled (objectOf [("code", .numberInteger code), ("message", .string message)]) :=
    spelled_objectOf (by
      simp only [List.forall_mem_cons, List.not_mem_nil, false_implies, implies_true, and_true]
      exact ⟨⟨by decide, spelled_numberInteger code⟩, by decide, spelled_string.mpr hmessage⟩)
  refine spelled_objectOf ?_
  simp only [List.forall_mem_cons, List.not_mem_nil, false_implies, implies_true, and_true]
  exact ⟨⟨by decide, spelled_string.mpr (wellFormed_ascii (by decide))⟩, ⟨by decide, hid⟩,
    by decide, herror⟩

theorem spelled_errorPayload {what hint : Bytes} (hhint : WellFormed hint) :
    Spelled (errorPayload what hint) ↔ WellFormed what := by
  constructor
  · intro h
    exact spelled_string.mp (spelled_objectOf_iff.mp h _ (List.mem_cons_self)).2
  · intro h
    refine spelled_objectOf ?_
    simp only [List.forall_mem_cons, List.not_mem_nil, false_implies, implies_true, and_true]
    exact ⟨⟨by decide, spelled_string.mpr h⟩, by decide, spelled_string.mpr hhint⟩

theorem spelled_toolFrame {protocol : Protocol} {payload : Json} {isError : Bool} {text : Bytes}
    (hpayload : Spelled payload) (htext : WellFormed text) :
    Spelled (toolFrame protocol payload isError text) := by
  have hblock : Spelled (objectOf [("type", word "text"), ("text", .string text)]) :=
    spelled_objectOf (by
      simp only [List.forall_mem_cons, List.not_mem_nil, false_implies, implies_true, and_true]
      exact ⟨⟨by decide, spelled_string.mpr (wellFormed_ascii (by decide))⟩, by decide,
        spelled_string.mpr htext⟩)
  refine spelled_objectOf ?_
  intro m hm
  rw [List.mem_append] at hm
  rcases hm with hm | hm
  · split at hm
    · obtain rfl := List.mem_singleton.mp hm
      exact ⟨(by decide : plainWord "structuredContent" = true), hpayload⟩
    · simp at hm
  · simp only [List.mem_cons, List.not_mem_nil, or_false] at hm
    rcases hm with rfl | rfl
    · exact ⟨(by decide : plainWord "content" = true), spelled_array.mpr (by simpa using hblock)⟩
    · exact ⟨(by decide : plainWord "isError" = true), spelled_boolean _⟩

theorem configHint_wellFormed : WellFormed configHint :=
  WellFormed.append (wellFormed_ascii (by decide +kernel)) (wellFormed_ascii (by decide +kernel))

theorem instructions_wellFormed : WellFormed instructions := by
  refine WellFormed.append (WellFormed.append (WellFormed.append (WellFormed.append ?_ ?_) ?_) ?_) ?_
  all_goals exact wellFormed_ascii (by decide +kernel)

theorem spelled_initializeResult (hs : server.Spelled) (p : Protocol) :
    Spelled (initializeResult server p) := by
  have htools : Spelled (objectOf [("tools", .object [])]) :=
    spelled_objectOf (by
      simp only [List.forall_mem_cons, List.not_mem_nil, false_implies, implies_true, and_true]
      exact ⟨by decide, spelled_empty⟩)
  have hinfo : Spelled (objectOf [("name", word "pg-laswell"),
      ("version", .string server.version)]) :=
    spelled_objectOf (by
      simp only [List.forall_mem_cons, List.not_mem_nil, false_implies, implies_true, and_true]
      exact ⟨⟨by decide, spelled_string.mpr (wellFormed_ascii (by decide))⟩, by decide,
        spelled_string.mpr hs.version⟩)
  refine spelled_objectOf ?_
  simp only [List.forall_mem_cons, List.not_mem_nil, false_implies, implies_true, and_true]
  exact ⟨⟨by decide, spelled_string.mpr (spelled_supported p)⟩, ⟨by decide, htools⟩,
    ⟨by decide, hinfo⟩, by decide, spelled_string.mpr instructions_wellFormed⟩

theorem spelled_toolEntry {t : ToolDef σ} (hname : WellFormed t.name)
    (hdescription : WellFormed t.description) (hinput : Spelled t.inputSchema)
    (houtput : ∀ schema ∈ t.outputSchema, Spelled schema) (p : Protocol) :
    Spelled (toolEntry p t) := by
  have hhints : Spelled (objectOf [("readOnlyHint", .boolean t.hints.readOnly),
      ("destructiveHint", .boolean t.hints.destructive),
      ("idempotentHint", .boolean t.hints.idempotent)]) :=
    spelled_objectOf (by
      simp only [List.forall_mem_cons, List.not_mem_nil, false_implies, implies_true, and_true]
      exact ⟨⟨by decide, spelled_boolean _⟩, ⟨by decide, spelled_boolean _⟩, by decide,
        spelled_boolean _⟩)
  refine spelled_objectOf fun m hm => ?_
  simp only [List.mem_append, List.mem_cons, List.not_mem_nil, or_false] at hm
  rcases hm with ((rfl | rfl | rfl) | hm) | hm
  · exact ⟨(by decide : plainWord "name" = true), spelled_string.mpr hname⟩
  · exact ⟨(by decide : plainWord "description" = true), spelled_string.mpr hdescription⟩
  · exact ⟨(by decide : plainWord "inputSchema" = true), hinput⟩
  · cases hschema : t.outputSchema with
    | none => simp [hschema] at hm
    | some schema =>
      simp only [hschema] at hm
      split at hm
      · obtain rfl := List.mem_singleton.mp hm
        exact ⟨(by decide : plainWord "outputSchema" = true), houtput schema (by simp [hschema])⟩
      · simp at hm
  · split at hm
    · obtain rfl := List.mem_singleton.mp hm
      exact ⟨(by decide : plainWord "annotations" = true), hhints⟩
    · simp at hm

theorem spelled_toolsList (hs : server.Spelled) (p : Protocol) :
    Spelled (toolsList server p) := by
  refine spelled_objectOf ?_
  simp only [List.forall_mem_cons, List.not_mem_nil, false_implies, implies_true, and_true]
  refine ⟨by decide, spelled_array.mpr fun e he => ?_⟩
  obtain ⟨t, ht, rfl⟩ := List.mem_map.mp he
  obtain ⟨hname, hdescription, hinput, houtput⟩ := hs.tools t ht
  exact spelled_toolEntry hname hdescription hinput houtput p

/-! ## One call -/

theorem toolResult_of_spelled (hlib : lib.Documented) {p : Protocol} {payload : Json}
    {isError : Bool} (h : Spelled payload) :
    ∃ text, lib.dump payload = .ok text ∧
      toolResult lib p payload isError = .ok (toolFrame p payload isError text) ∧
      Spelled (toolFrame p payload isError text) := by
  obtain ⟨text, htext⟩ := (hlib.dumps payload).mpr h
  exact ⟨text, htext, by rw [toolResult, htext]; rfl,
    spelled_toolFrame h (hlib.dumped payload text htext).1⟩

theorem toolResult_of_not_spelled (hlib : lib.Documented) {p : Protocol} {payload : Json}
    {isError : Bool} (h : ¬ Spelled payload) :
    ∃ what, lib.dump payload = .error what ∧
      toolResult lib p payload isError = .error what ∧ WellFormed what := by
  cases hdump : lib.dump payload with
  | ok text => exact absurd ((hlib.dumps payload).mp ⟨text, hdump⟩) h
  | error what =>
    exact ⟨what, rfl, by rw [toolResult, hdump]; rfl, hlib.refused payload what hdump⟩

/-- A result, or a message of the library that the loop answers with. -/
def Answered (lib : JsonText) (p : Protocol) (id : Json) (invoked : Invoked) :
    Except Bytes Json → Prop
  | .ok result => Called lib p id invoked (makeResult id result) ∧ Spelled result
  | .error what => Called lib p id invoked (makeError .null kInvalidRequest what) ∧ WellFormed what

/-- The handler of an exception. -/
theorem toolResult_answered (hlib : lib.Documented) (p : Protocol) (id : Json) {invoked : Invoked}
    {what hint : Bytes} (hhint : WellFormed hint) (hfails : Fails lib invoked what hint) :
    Answered lib p id invoked (toolResult lib p (errorPayload what hint) true) := by
  by_cases hw : WellFormed what
  · obtain ⟨text, hdump, hresult, hspelled⟩ :=
      @toolResult_of_spelled lib hlib p _ true ((spelled_errorPayload hhint).mpr hw)
    rw [hresult]
    exact ⟨.failed what hint text hfails hw hdump, hspelled⟩
  · obtain ⟨message, hdump, hresult, hmessage⟩ := @toolResult_of_not_spelled lib hlib p _ true
      (fun h => hw ((spelled_errorPayload hhint).mp h))
    rw [hresult]
    exact ⟨.garbled what hint message hfails hw hdump, hmessage⟩

theorem answer_answered (hlib : lib.Documented) (p : Protocol) (id : Json) (invoked : Invoked) :
    Answered lib p id invoked (answer lib p invoked) := by
  cases invoked with
  | payload j =>
    by_cases hj : Spelled j
    · obtain ⟨text, hdump, hresult, hspelled⟩ := @toolResult_of_spelled lib hlib p j false hj
      rw [answer, hresult]
      exact ⟨.said j text rfl hdump, hspelled⟩
    · obtain ⟨what, hdump, hresult, -⟩ := @toolResult_of_not_spelled lib hlib p j false hj
      rw [answer, hresult]
      exact toolResult_answered hlib p id (wellFormed_ascii (by decide)) (.unwritten j what hdump)
  | configError what =>
    exact toolResult_answered hlib p id configHint_wellFormed (.configError what)
  | exception what =>
    exact toolResult_answered hlib p id (wellFormed_ascii (by decide)) (.exception what)

/-! ## One line -/

/-- What the loop makes of a line: the state after it, an answer if it calls for one, and only an
answer that can be written. -/
structure Responded (lib : JsonText) (server : McpServer σ) (line : Bytes) (st : State σ)
    (out : Option Json × State σ) : Prop where
  state : out.2 = stateAfter lib server.tools st [line]
  answered : out.1.isSome = calls lib line
  reply : ∀ r ∈ out.1, Reply lib server.tools st line r ∧ Spelled r

/-- A line that neither calls a tool nor negotiates changes nothing. -/
theorem stateAfter_idle {line : Bytes} (st : State σ)
    (hcall : callIn lib server.tools line = none) (hoffer : offerIn lib line = none) :
    stateAfter lib server.tools st [line] = st := by
  simp [stateAfter, hcall, hoffer]

theorem document_eq_some {line : Bytes} {req : Json} :
    lib.document line = some req ↔ lib.parse line = .document req := by
  unfold JsonText.document
  cases lib.parse line <;> simp

theorem requestOf_eq {line : Bytes} {req : Json} (hline : line ≠ [])
    (hparse : lib.document line = some req) (method : String) :
    requestOf lib method line = if methodOf req = some (ascii method) then some req else none := by
  rw [requestOf, if_neg (by simpa using hline), hparse]
  simp [Option.filter]

/-- A line with another method. -/
theorem requestOf_ne {line : Bytes} {req : Json} {m : Bytes} (hline : line ≠ [])
    (hparse : lib.document line = some req) (hm : methodOf req = some m) {method : String}
    (hne : m ≠ ascii method) : requestOf lib method line = none := by
  rw [requestOf_eq hline hparse, hm, if_neg (by simpa using hne)]

theorem callIn_of_requestOf {line : Bytes} {tools : List (ToolDef σ)}
    (h : requestOf lib "tools/call" line = none) : callIn lib tools line = none := by
  simp [callIn, h]

theorem offerIn_of_requestOf {line : Bytes} (h : requestOf lib "initialize" line = none) :
    offerIn lib line = none := by
  simp [offerIn, h]

theorem methodOf_eq_some {req : Json} {m : Bytes} (h : methodOf req = some m) :
    isObject req = true ∧ (!has req "method" || !isString (at_ req "method")) = false ∧
      text (at_ req "method") = m := by
  unfold methodOf at h
  split at h
  · next hc =>
    cases h
    simp only [Bool.and_eq_true] at hc
    exact ⟨hc.1.1, by simp [hc.1.2, hc.2], rfl⟩
  · cases h

theorem refusalOf_unserved {line : Bytes} {req : Json} {m : Bytes}
    (hparse : lib.document line = some req) (hm : methodOf req = some m) :
    refusalOf lib line = unserved req m := by
  simp [refusalOf, document_eq_some.mp hparse, (methodOf_eq_some hm).1, hm]

/-- A line that is answered with an error. -/
theorem Responded.refusal {line : Bytes} {st : State σ} (hcalls : calls lib line = true)
    (hcall : callIn lib server.tools line = none) (hoffer : offerIn lib line = none)
    (hserved : ¬ Served lib line) {id : Json} (hid : id = idOf lib line) (hspelled : Spelled id)
    {code : Int64} {message : Bytes} (hrefusal : refusalOf lib line = (code, message))
    (hmessage : WellFormed message) :
    Responded lib server line st (some (makeError id code message), st) where
  state := (stateAfter_idle st hcall hoffer).symm
  answered := by rw [hcalls]; rfl
  reply := by
    rintro r ⟨⟩
    subst hid
    refine ⟨⟨fun c hc => ?_, fun _ h => absurd h hserved, fun _ _ => by rw [hrefusal]⟩,
      spelled_makeError hspelled hmessage⟩
    rw [hcall] at hc
    cases hc

/-- A line that is answered with a result, and calls no tool. -/
theorem Responded.result {line : Bytes} {st st' : State σ} (hcalls : calls lib line = true)
    (hcall : callIn lib server.tools line = none) (hserved : Served lib line)
    (hstate : st' = stateAfter lib server.tools st [line]) {id : Json}
    (hid : id = idOf lib line) (hspelled : Spelled id) {result : Json} (hresult : Spelled result) :
    Responded lib server line st (some (makeResult id result), st') where
  state := hstate
  answered := by rw [hcalls]; rfl
  reply := by
    rintro r ⟨⟩
    subst hid
    refine ⟨⟨fun c hc => ?_, fun _ _ => ⟨result, rfl⟩, fun _ h => absurd hserved h⟩,
      spelled_makeResult hspelled hresult⟩
    rw [hcall] at hc
    cases hc

/-- A line that is not answered. -/
theorem Responded.silent {line : Bytes} {st : State σ} (hcalls : calls lib line = false)
    (hcall : callIn lib server.tools line = none) (hoffer : offerIn lib line = none) :
    Responded lib server line st (none, st) where
  state := (stateAfter_idle st hcall hoffer).symm
  answered := by rw [hcalls]; rfl
  reply := nofun

theorem served_iff {line : Bytes} {req : Json} (hline : line ≠ [])
    (hparse : lib.document line = some req) :
    Served lib line ↔
      ∃ method ∈ ["initialize", "ping", "tools/list"], methodOf req = some (ascii method) := by
  simp only [Served, requestOf_eq hline hparse]
  refine exists_congr fun method => and_congr_right fun _ => ?_
  split <;> simp_all

theorem calls_eq {line : Bytes} {req : Json} (hline : line ≠ [])
    (hparse : lib.document line = some req) : calls lib line = awaits req := by
  cases line with
  | nil => exact absurd rfl hline
  | cons b line => simp [calls, hparse]

theorem calls_of_always {line : Bytes} {req : Json} {m : Bytes} (hline : line ≠ [])
    (hparse : lib.document line = some req) (hm : methodOf req = some m)
    (h : alwaysAnswered.contains m = true ∧ m ≠ ascii "notifications/initialized") :
    calls lib line = true := by
  rw [calls_eq hline hparse, awaits, hm]
  simp only [h.1, bne_iff_ne, Bool.true_or, Bool.and_true]
  exact h.2

/-- A call of a registered tool. -/
theorem Responded.call (hlib : lib.Documented) {line : Bytes} {st : State σ}
    (hcalls : calls lib line = true) (hoffer : offerIn lib line = none) {t : ToolDef σ}
    {arguments : Json} (hcall : callIn lib server.tools line = some (t, arguments)) {id : Json}
    (hid : id = idOf lib line) (hspelled : Spelled id) :
    Responded lib server line st
      (caught (((answer lib st.protocol (t.invoke arguments st.world).1).map
        (makeResult id)).map some), ⟨st.protocol, (t.invoke arguments st.world).2⟩) := by
  have hanswer := answer_answered hlib st.protocol id (t.invoke arguments st.world).1
  subst hid
  have hcalled : ∀ r, Called lib st.protocol (idOf lib line) (t.invoke arguments st.world).1 r →
      Reply lib server.tools st line r := by
    refine fun r h => ⟨fun c hc => ?_, fun hc => ?_, fun hc => ?_⟩
    · rw [hcall] at hc
      cases hc
      exact h
    all_goals
      rw [hcall] at hc
      cases hc
  refine ⟨by simp [stateAfter, hcall, hoffer, invokeOn], ?_, ?_⟩
  · cases answer lib st.protocol (t.invoke arguments st.world).1 <;> exact hcalls.symm
  · cases hr : answer lib st.protocol (t.invoke arguments st.world).1 with
    | ok result =>
      rw [hr] at hanswer
      rintro r ⟨⟩
      exact ⟨hcalled _ hanswer.1, spelled_makeResult hspelled hanswer.2⟩
    | error what =>
      rw [hr] at hanswer
      rintro r ⟨⟩
      exact ⟨hcalled _ hanswer.1, spelled_makeError spelled_null hanswer.2⟩

theorem spelled_paramsOf {req : Json} (h : Spelled req) : Spelled (paramsOf req) := by
  unfold paramsOf
  split
  · exact spelled_at h "params"
  · exact spelled_empty

theorem wellFormed_calledName {params : Json} {name : Bytes} (h : Spelled params)
    (hname : calledName params = some name) : WellFormed name := by
  unfold calledName at hname
  split at hname
  · cases hname
  · cases hname
    exact spelled_text (spelled_at h "name")

/-- A call of a tool that is registered, of one that is not, and one that names none. -/
theorem toolsCall_responded (hlib : lib.Documented) {line : Bytes} {req : Json} (st : State σ)
    (hline : line ≠ []) (hparse : lib.document line = some req)
    (hm : methodOf req = some (ascii "tools/call")) (hid : at_ req "id" = idOf lib line) :
    Responded lib server line st
      (caught ((toolsCall lib server (at_ req "id") (paramsOf req) st).1.map some),
        (toolsCall lib server (at_ req "id") (paramsOf req) st).2) := by
  have hreq : Spelled req := hlib.parsed line req (document_eq_some.mp hparse)
  have hspelled : Spelled (at_ req "id") := spelled_at hreq "id"
  have hrequest : requestOf lib "tools/call" line = some req := by
    rw [requestOf_eq hline hparse, if_pos hm]
  have hcalls : calls lib line = true :=
    calls_of_always hline hparse hm (by decide)
  have hoffer : offerIn lib line = none :=
    offerIn_of_requestOf (requestOf_ne hline hparse hm (by decide))
  have hserved : ¬ Served lib line := by
    rw [served_iff hline hparse, hm]
    decide
  cases hname : calledName (paramsOf req) with
  | none =>
    have hcall : callIn lib server.tools line = none := by simp [callIn, hrequest, hname]
    simp only [toolsCall, hname]
    exact .refusal hcalls hcall hoffer hserved hid hspelled
      ((refusalOf_unserved hparse hm).trans (by simp [unserved, hname]))
      (wellFormed_ascii (by decide))
  | some name =>
    cases hfind : server.tools.find? fun t => t.name == name with
    | none =>
      have hcall : callIn lib server.tools line = none := by
        simp [callIn, hrequest, hname, hfind]
      simp only [toolsCall, hname, hfind]
      exact .refusal hcalls hcall hoffer hserved hid hspelled
        ((refusalOf_unserved hparse hm).trans (by simp [unserved, hname]))
        (WellFormed.append (wellFormed_ascii (by decide : plainWord "Unknown tool: " = true))
          (wellFormed_calledName (spelled_paramsOf hreq) hname))
    | some t =>
      have hcall : callIn lib server.tools line = some (t, callArguments (paramsOf req)) := by
        simp [callIn, hrequest, hname, hfind]
      simp only [toolsCall, hname, hfind]
      exact .call hlib hcalls hoffer hcall hid hspelled

theorem requestOf_noMethod {line : Bytes} (h : (lib.document line).bind methodOf = none)
    (method : String) : requestOf lib method line = none := by
  unfold requestOf
  split
  · rfl
  · cases hp : lib.document line with
    | none => rfl
    | some req =>
      have hm : methodOf req = none := by simpa [hp] using h
      simp [Option.filter, hm]

/-- A line that is refused before its method is looked at. -/
theorem Responded.unasked {line : Bytes} {st : State σ} (hline : line ≠ [])
    (h : (lib.document line).bind methodOf = none) {id : Json} (hid : id = idOf lib line)
    (hspelled : Spelled id) {code : Int64} {message : Bytes}
    (hrefusal : refusalOf lib line = (code, message)) (hmessage : WellFormed message) :
    Responded lib server line st (some (makeError id code message), st) := by
  have hcalls : calls lib line = true := by
    cases hp : lib.document line with
    | none => simpa [calls, hp] using hline
    | some req =>
      have hm : methodOf req = none := by simpa [hp] using h
      rw [calls_eq hline hp, awaits, hm]
  have hserved : ¬ Served lib line := by
    rintro ⟨method, -, hsome⟩
    rw [requestOf_noMethod h] at hsome
    cases hsome
  exact .refusal hcalls (callIn_of_requestOf (requestOf_noMethod h _))
    (offerIn_of_requestOf (requestOf_noMethod h _)) hserved hid hspelled hrefusal hmessage

/-- A request of a method the server does not look up in its tools. -/
theorem handleRequest_responded (hlib : lib.Documented) (hs : server.Spelled) {line : Bytes}
    {req : Json} {m : Bytes} (st : State σ) (hline : line ≠ [])
    (hparse : lib.document line = some req) (hm : methodOf req = some m) :
    Responded lib server line st (caught (handleRequest lib server req st).1,
      (handleRequest lib server req st).2) := by
  obtain ⟨hobject, hasked, htext⟩ := methodOf_eq_some hm
  have hid : at_ req "id" = idOf lib line := by rw [idOf, hparse]; simp [hobject]
  have hreq : Spelled req := hlib.parsed line req (document_eq_some.mp hparse)
  have hspelled : Spelled (at_ req "id") := spelled_at hreq "id"
  have hnoCall (hne : m ≠ ascii "tools/call") : callIn lib server.tools line = none :=
    callIn_of_requestOf (requestOf_ne hline hparse hm hne)
  have hnoOffer (hne : m ≠ ascii "initialize") : offerIn lib line = none :=
    offerIn_of_requestOf (requestOf_ne hline hparse hm hne)
  simp only [handleRequest, hobject, hasked, htext, Bool.not_true, Bool.false_eq_true, if_false]
  split
  · next h =>
    subst h
    have hoffer : offerIn lib line = some (negotiateProtocol (paramsOf req)) := by
      rw [offerIn, requestOf_eq hline hparse, if_pos hm]
      rfl
    have hcall := hnoCall (by decide)
    exact .result (calls_of_always hline hparse hm (by decide)) hcall
      ((served_iff hline hparse).mpr ⟨_, by decide, hm⟩) (by simp [stateAfter, hcall, hoffer]) hid
      hspelled (spelled_initializeResult hs _)
  · next hinit =>
    split
    · next h =>
      subst h
      refine .silent ?_ (hnoCall (by decide)) (hnoOffer hinit)
      rw [calls_eq hline hparse, awaits, hm]
      simp
    · next hnotify =>
      split
      · next h =>
        subst h
        exact .result (calls_of_always hline hparse hm (by decide)) (hnoCall (by decide))
          ((served_iff hline hparse).mpr ⟨_, by decide, hm⟩)
          (stateAfter_idle st (hnoCall (by decide)) (hnoOffer hinit)).symm hid hspelled
          spelled_empty
      · next hping =>
        split
        · next h =>
          subst h
          exact .result (calls_of_always hline hparse hm (by decide)) (hnoCall (by decide))
            ((served_iff hline hparse).mpr ⟨_, by decide, hm⟩)
            (stateAfter_idle st (hnoCall (by decide)) (hnoOffer hinit)).symm hid hspelled
            (spelled_toolsList hs _)
        · next hlist =>
          split
          · next h =>
            subst h
            exact toolsCall_responded hlib st hline hparse hm hid
          · next hcall =>
            have hknown : alwaysAnswered.contains m = false := by
              simp [alwaysAnswered, hinit, hping, hlist, hcall]
            have hcalls : calls lib line = has req "id" := by
              rw [calls_eq hline hparse, awaits, hm]
              simp only [hknown, Bool.false_or, bne_iff_ne.mpr hnotify, Bool.true_and]
            split
            · next hanon =>
              exact .silent (hcalls.trans (by simpa using hanon)) (hnoCall hcall) (hnoOffer hinit)
            · next hanon =>
              have hserved : ¬ Served lib line := by
                rw [served_iff hline hparse, hm]
                simp [hinit, hping, hlist]
              refine .refusal (hcalls.trans (by simpa using hanon)) (hnoCall hcall)
                (hnoOffer hinit) hserved hid hspelled
                ((refusalOf_unserved hparse hm).trans (by simp [unserved, hcall])) ?_
              rw [← htext]
              exact WellFormed.append
                (wellFormed_ascii (by decide : plainWord "Method not found: " = true))
                (spelled_text (spelled_at hreq "method"))

theorem respond_spec (hlib : lib.Documented) (hs : server.Spelled) {line : Bytes}
    (hline : line ≠ []) (st : State σ) :
    Responded lib server line st (respond lib server line st) := by
  unfold respond
  cases hparse : lib.parse line with
  | parseError =>
    have hnone : lib.document line = none := by rw [JsonText.document, hparse]
    exact .unasked hline (by rw [hnone]; rfl) (by rw [idOf, hnone]) spelled_null
      (by rw [refusalOf, hparse]) (wellFormed_ascii (by decide))
  | exception what =>
    have hnone : lib.document line = none := by rw [JsonText.document, hparse]
    exact .unasked hline (by rw [hnone]; rfl) (by rw [idOf, hnone]) spelled_null
      (by rw [refusalOf, hparse]) (hlib.unparsed line what hparse)
  | document req =>
    have hsome : lib.document line = some req := document_eq_some.mpr hparse
    cases hm : methodOf req with
    | some m => exact handleRequest_responded hlib hs st hline hsome hm
    | none =>
      have hnone : (lib.document line).bind methodOf = none := by rw [hsome]; exact hm
      cases hobject : isObject req with
      | false =>
        simp only [handleRequest, hobject, Bool.not_false, if_true]
        exact .unasked hline hnone (by rw [idOf, hsome]; simp [hobject]) spelled_null
          (by simp [refusalOf, hparse, hobject]) (hlib.valued req)
      | true =>
        have hasked : (!has req "method" || !isString (at_ req "method")) = true := by
          simpa [methodOf, hobject, ← Bool.not_and] using hm
        simp only [handleRequest, hobject, hasked, Bool.not_true, Bool.false_eq_true, if_false,
          if_true]
        exact .unasked hline hnone (by rw [idOf, hsome]; simp [hobject])
          (spelled_at (hlib.parsed line req hparse) "id")
          (by simp [refusalOf, hparse, hobject, hm]) (wellFormed_ascii (by decide))

/-! ## The whole input -/

theorem stateAfter_cons (tools : List (ToolDef σ)) (st : State σ) (line : Bytes)
    (lines : List Bytes) : stateAfter lib tools st (line :: lines) =
      stateAfter lib tools (stateAfter lib tools st [line]) lines := by
  unfold stateAfter
  cases hcall : callIn lib tools line <;> cases hoffer : offerIn lib line <;>
    simp only [List.filterMap_cons, List.filterMap_nil, hcall, hoffer, List.getLastD_cons,
      List.getLastD_nil, List.foldl_cons, List.foldl_nil]

/-- The texts the loop has written for these lines. -/
structure Wrote (lib : JsonText) (server : McpServer σ) (st : State σ) (lines texts : List Bytes) :
    Prop where
  oneLine : ∀ text ∈ texts, 0x0A ∉ text
  count : texts.length = lines.countP (calls lib)
  replies : ∀ pre line post, lines = pre ++ line :: post → calls lib line = true →
    ∃ text r, texts[pre.countP (calls lib)]? = some text ∧ lib.dump r = .ok text ∧
      Reply lib server.tools (stateAfter lib server.tools st pre) line r

theorem Wrote.nil (st : State σ) : Wrote lib server st [] [] :=
  ⟨nofun, rfl, fun pre line post h => absurd h (by simp)⟩

/-- One more line in front, which is not answered. -/
theorem Wrote.silent {st : State σ} {line : Bytes} {lines texts : List Bytes}
    (hcalls : calls lib line = false)
    (h : Wrote lib server (stateAfter lib server.tools st [line]) lines texts) :
    Wrote lib server st (line :: lines) texts where
  oneLine := h.oneLine
  count := by rw [h.count, List.countP_cons_of_neg (by simp [hcalls])]
  replies := by
    intro pre line' post hsplit hline'
    cases pre with
    | nil =>
      cases hsplit
      rw [hcalls] at hline'
      cases hline'
    | cons first pre =>
      cases hsplit
      rw [List.countP_cons_of_neg (by simp [hcalls]), stateAfter_cons]
      exact h.replies pre line' post rfl hline'

/-- One more line in front, with its answer. -/
theorem Wrote.answered {st : State σ} {line : Bytes} {lines texts : List Bytes} {text : Bytes}
    {r : Json} (hcalls : calls lib line = true) (hdump : lib.dump r = .ok text)
    (htext : 0x0A ∉ text) (hreply : Reply lib server.tools st line r)
    (h : Wrote lib server (stateAfter lib server.tools st [line]) lines texts) :
    Wrote lib server st (line :: lines) (text :: texts) where
  oneLine := List.forall_mem_cons.mpr ⟨htext, h.oneLine⟩
  count := by rw [List.length_cons, h.count, List.countP_cons_of_pos hcalls]
  replies := by
    intro pre line' post hsplit hline'
    cases pre with
    | nil =>
      cases hsplit
      exact ⟨text, r, rfl, hdump, hreply⟩
    | cons first pre =>
      cases hsplit
      rw [List.countP_cons_of_pos hcalls, stateAfter_cons]
      exact h.replies pre line' post rfl hline'

theorem loop_wrote (hlib : lib.Documented) (hs : server.Spelled) (lines : List Bytes) :
    ∀ st : State σ, ∃ texts, Wrote lib server st lines texts ∧
      loop lib server lines st = ⟨unlines 0x0A texts, stateAfter lib server.tools st lines, none⟩ := by
  induction lines with
  | nil => exact fun st => ⟨[], Wrote.nil st, rfl⟩
  | cons line lines ih =>
    intro st
    obtain ⟨texts, hwrote, hloop⟩ := ih (stateAfter lib server.tools st [line])
    rw [← stateAfter_cons] at hloop
    by_cases hline : line = []
    · subst hline
      have hidle : stateAfter lib server.tools st [[]] = st :=
        stateAfter_idle st (callIn_of_requestOf rfl) (offerIn_of_requestOf rfl)
      refine ⟨texts, .silent rfl hwrote, ?_⟩
      rw [← hloop, hidle]
      rfl
    · have hone := respond_spec hlib hs hline st
      have hempty : line.isEmpty = false := by simpa using hline
      cases hr : respond lib server line st with
      | mk response st' =>
        rw [hr] at hone
        obtain rfl : st' = _ := hone.state
        cases response with
        | none =>
          refine ⟨texts, .silent hone.answered.symm hwrote, ?_⟩
          simp only [loop, hempty, Bool.false_eq_true, if_false, hr, hloop]
        | some r =>
          obtain ⟨hreply, hspelled⟩ := hone.reply r rfl
          obtain ⟨text, hdump⟩ := (hlib.dumps r).mpr hspelled
          refine ⟨text :: texts, .answered hone.answered.symm hdump (hlib.dumped r text hdump).2
            hreply hwrote, ?_⟩
          simp only [loop, hempty, Bool.false_eq_true, if_false, hr, hdump, hloop, unlines_cons]

/-- Over every input: the loop reads to its end, the tools were called once for each line that
calls one, in order, and the lines of the output are the answers to the lines that call for one, in
order. -/
theorem run_replies (hlib : lib.Documented) (hs : server.Spelled) (input : Bytes) (st : State σ) :
    (run lib server input st).thrown = none ∧
      (run lib server input st).state =
        stateAfter lib server.tools st (getlines 0x0A input) ∧
      Wrote lib server st (getlines 0x0A input)
        (getlines 0x0A (run lib server input st).output) := by
  obtain ⟨texts, hwrote, hloop⟩ := loop_wrote hlib hs (getlines 0x0A input) st
  have hrun : run lib server input st = _ := hloop
  rw [hrun]
  exact ⟨rfl, rfl, by rwa [getlines_unlines hwrote.oneLine]⟩

end

/-! ## A session -/

def readyLine : Bytes := ascii "\x7b\"method\":\"notifications/initialized\"\x7d"

def callLine : Bytes :=
  ascii "\x7b\"id\":7,\"method\":\"tools/call\",\"params\":\x7b\"name\":\"count\"\x7d\x7d"

/-- A number no `double` holds. -/
def hugeLine : Bytes := ascii "1e999"

/-- The lines of a client that says it is ready, calls the tool and sends the number. -/
def parseSession (line : Bytes) : Parsed :=
  if line = readyLine then
    .document (.object [(ascii "method", word "notifications/initialized")])
  else if line = callLine then
    .document (.object [(ascii "id", .numberUnsigned 7), (ascii "method", word "tools/call"),
      (ascii "params", .object [(ascii "name", word "count")])])
  else if line = hugeLine then
    .exception (ascii "[json.exception.out_of_range.406] number overflow parsing '1e999'")
  else .parseError

theorem spelled_parseSession (line : Bytes) (j : Json) (h : parseSession line = .document j) :
    Spelled j := by
  have hall : ∀ j : Json, j.strings.all utf8 = true → Spelled j := fun j hj s hs =>
    wellFormed_of_utf8 s (List.all_eq_true.mp hj s hs)
  unfold parseSession at h
  split at h
  · cases h
    exact hall _ (by decide +kernel)
  · split at h
    · cases h
      exact hall _ (by decide +kernel)
    · split at h <;> cases h

theorem wellFormed_parseSession (line what : Bytes) (h : parseSession line = .exception what) :
    WellFormed what := by
  unfold parseSession at h
  split at h
  · cases h
  · split at h
    · cases h
    · split at h
      · cases h
        exact wellFormed_ascii (by decide)
      · cases h

/-- A server of one tool, which counts its calls. -/
def countingServer : McpServer Nat where
  tools := [{ name := ascii "count", description := ascii "Counts.", inputSchema := .object []
              invoke := fun _ n => (.payload (.numberUnsigned 1), n + 1) }]
  version := ascii "1"

theorem countingServer_spelled : countingServer.Spelled where
  version := wellFormed_ascii (by decide)
  tools := by
    intro t ht
    obtain rfl := List.mem_singleton.mp ht
    exact ⟨wellFormed_ascii (by decide), wellFormed_ascii (by decide), spelled_empty, nofun⟩

theorem run_replies_session :
    (run (compact parseSession) countingServer (unlines 0x0A [readyLine, callLine, hugeLine])
        ⟨kDefaultProtocol, 0⟩).thrown = none ∧
      (run (compact parseSession) countingServer (unlines 0x0A [readyLine, callLine, hugeLine])
        ⟨kDefaultProtocol, 0⟩).state =
        stateAfter (compact parseSession) countingServer.tools ⟨kDefaultProtocol, 0⟩
          (getlines 0x0A (unlines 0x0A [readyLine, callLine, hugeLine])) ∧
      Wrote (compact parseSession) countingServer ⟨kDefaultProtocol, 0⟩
        (getlines 0x0A (unlines 0x0A [readyLine, callLine, hugeLine]))
        (getlines 0x0A (run (compact parseSession) countingServer
          (unlines 0x0A [readyLine, callLine, hugeLine]) ⟨kDefaultProtocol, 0⟩).output) :=
  run_replies (compact_documented spelled_parseSession wellFormed_parseSession)
    countingServer_spelled (unlines 0x0A [readyLine, callLine, hugeLine]) ⟨kDefaultProtocol, 0⟩

end Server
end Laswell
