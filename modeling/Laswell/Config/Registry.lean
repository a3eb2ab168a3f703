import Laswell.Config.Conninfo
import Laswell.Trust.Policy

/-!
# Laswell.Config.Registry

What the sections of a configuration file mean (`Registry::from_ini`): the trust policy, the
executor's settings, and the connections.

* `parseKey`, `parseConnection`: one section. `connectionKey` is one key of a connection.
* `fromSections`, `fromIni`: all of them, in order.
* `Configures`: what a connection has to do with its section.
* `Sound`: what a configuration that was accepted promises.
-/

namespace Laswell
namespace Config

open Base Canonical Trust Jobs

/-- A character is a byte. -/
def bytesOf (s : Text) : Bytes := s.map fun c => c.toNat.toUInt8

def textOf (b : Bytes) : String := String.ofList (b.map fun b => Char.ofNat b.toNat)

abbrev shown (s : Text) : String := String.ofList s

/-! ## Trust -/

/-- `split_list` -/
def splitList (value : Text) (key w : String) : Except String (List Text) :=
  if trim value = [] then .error (w ++ ": " ++ key ++ " is empty")
  else
    let pieces := (value.splitOn ',').map trim
    if [] ∈ pieces then .error (w ++ ": " ++ key ++ " has an empty entry") else .ok pieces

/-- `parse_trust`: the keys of the section are in order, and `accept` is the only one. -/
def parseTrust (accept : List Bytes) (kvs : List (Text × Text)) (w : String) :
    Except String (List Bytes) :=
  kvs.foldlM (fun _ kv =>
    if kv.1 = "accept".toList then (splitList kv.2 "accept" w).map fun ids => ids.map bytesOf
    else .error (w ++ ": unknown key " ++ shown kv.1 ++ " in [trust]")) accept

def kSpkiPrefix : Bytes :=
  [0x30, 0x2a, 0x30, 0x05, 0x06, 0x03, 0x2b, 0x65, 0x70, 0x03, 0x21, 0x00]

/-- `decode_public_key` -/
def decodePublicKey (b64 keyId : Text) (w : String) :
    Except String {raw : Bytes // raw.length = 32} :=
  match base64Decode (bytesOf b64) with
  | .error e => .error (textOf e.what)
  | .ok raw =>
    if h : raw.length = 32 then .ok ⟨raw, h⟩
    else if h : raw.length = 44 ∧ kSpkiPrefix.isPrefixOf raw = true then
      .ok ⟨raw.drop 12, by rw [List.length_drop, h.1]⟩
    else .error (w ++ ": [key " ++ shown keyId ++
      "] public_key must be base64 of a 32-byte raw Ed25519 key or its 44-byte SPKI form, got " ++
      toString raw.length ++ " bytes")

/-- A `[key …]` section as far as it was read. -/
structure KeySection where
  label : Text := []
  publicKey : Option {raw : Bytes // raw.length = 32} := none

def keySectionKey (keyId : Text) (w : String) (k : KeySection) (kv : Text × Text) :
    Except String KeySection :=
  if kv.1 = "label".toList then .ok { k with label := kv.2 }
  else if kv.1 = "public_key".toList then
    (decodePublicKey kv.2 keyId w).map fun raw => { k with publicKey := some raw }
  else .error (w ++ ": unknown key " ++ shown kv.1 ++ " in [key " ++ shown keyId ++ "]")

def parseKey (keyId : Text) (kvs : List (Text × Text)) (w : String) : Except String LocalKey := do
  if keyId = [] then .error (w ++ ": [key ...] section with no key id")
  else
    let k ← kvs.foldlM (keySectionKey keyId w) {}
    match k.publicKey with
    | none => .error (w ++ ": [key " ++ shown keyId ++ "] has no public_key")
    | some raw =>
      if k.label = [] then .error (w ++ ": [key " ++ shown keyId ++ "] has no label")
      else .ok ⟨raw.1, bytesOf k.label, raw.2⟩

/-! ## Connections -/

structure ConnConfig where
  name : Text
  conninfo : Text := []
  service : Text := []
  host : Text := []
  port : Text := []
  dbname : Text := []
  user : Text := []
  statementTimeoutMs : Int := 120000
  executor : ExecutorSettings
  moduleSettings : List (Text × Text) := []

/-- A connection as far as its section was read, with the parts of its connection string. -/
structure Building where
  conn : ConnConfig
  parts : List Text := []

/-- What this binary was built with. -/
structure Binary where
  appName : Text
  modules : List Text := []

/-- `module_compiled_in` -/
def Binary.hasModule (binary : Binary) (name : Text) : Bool :=
  binary.modules.any fun m => !m.isEmpty && m = name

def Binary.moduleSet (binary : Binary) : Text := [','].intercalate binary.modules

/-- A connection parameter that is kept for display. A password is not. -/
def ConnConfig.echo (c : ConnConfig) (kv : Text × Text) : ConnConfig :=
  if kv.1 = "service".toList then { c with service := kv.2 }
  else if kv.1 = "host".toList then { c with host := kv.2 }
  else if kv.1 = "port".toList then { c with port := kv.2 }
  else if kv.1 = "dbname".toList then { c with dbname := kv.2 }
  else if kv.1 = "user".toList then { c with user := kv.2 }
  else c

/-- One key of a connection's section. -/
def connectionKey (binary : Binary) (w : String) (b : Building) (kv : Text × Text) :
    Except String Building :=
  let c := b.conn
  if kv.1 = "statement_timeout_ms".toList then
    (nonNegativeInt (shown kv.2) (shown kv.1) w).map fun n =>
      { b with conn := { c with statementTimeoutMs := n } }
  else
    match applyExecutorKey c.executor (shown kv.1) (shown kv.2) w with
    | .error what => .error what
    | .ok (some executor) => .ok { b with conn := { c with executor } }
    | .ok none =>
      if '.' ∈ kv.1 then
        let mod := kv.1.takeWhile (· ≠ '.')
        if !binary.hasModule mod then
          .error (w ++ ": [" ++ shown c.name ++ "] sets " ++ shown kv.1 ++
            ", but this binary has no " ++ shown mod ++ " module" ++
            (if binary.moduleSet = [] then " (it was built with none)"
              else " (it has: " ++ shown binary.moduleSet ++ ")") ++
            ". A setting nothing reads would look configured and do nothing.")
        else .ok { b with conn := { c with moduleSettings := c.moduleSettings ++ [kv] } }
      else if kv.1 = "options".toList then
        .error (w ++ ": [" ++ shown c.name ++ "] sets " ++ "`options`, which a pooler rejects as " ++
          "an unsupported startup parameter. Set GUCs per transaction instead.")
      else .ok { conn := c.echo kv, parts := b.parts ++ [parameter kv] }

def parseConnection (binary : Binary) (executor : ExecutorSettings) (s : Section) (w : String) :
    Except String ConnConfig := do
  let b ← s.keys.foldlM (connectionKey binary w) { conn := { name := s.name, executor } }
  validateExecutor b.conn.executor w
  if b.parts = [] then
    .error (w ++ ": [" ++ shown s.name ++ "] has no connection parameters")
  else
    .ok { b.conn with
      conninfo := joined (b.parts ++ [parameter ("application_name".toList, binary.appName)]) }

/-! ## The registry -/

structure Registry where
  conns : List ConnConfig := []
  defaultName : Text := []
  trust : TrustPolicy := { accept := [], keys := fun _ => none }
  executor : ExecutorSettings := {}

/-- The `[executor]` section's keys. -/
def executorKey (w : String) (e : ExecutorSettings) (kv : Text × Text) :
    Except String ExecutorSettings :=
  match applyExecutorKey e (shown kv.1) (shown kv.2) w with
  | .error what => .error what
  | .ok (some e) => .ok e
  | .ok none => .error (w ++ ": unknown key " ++ shown kv.1 ++ " in [executor]")

def isKeySection (name : Text) : Bool := "key ".toList.isPrefixOf name

/-- The section of a connection: its name is none of the reserved forms. -/
def isConnection (name : Text) : Bool :=
  name ≠ "trust".toList && name ≠ "executor".toList && !isKeySection name

def readSection (binary : Binary) (w : String) (r : Registry) (s : Section) :
    Except String Registry := do
  if s.name = "trust".toList then
    let accept ← parseTrust r.trust.accept s.keys w
    return { r with trust := { r.trust with accept } }
  else if s.name = "executor".toList then
    let executor ← s.keys.foldlM (executorKey w) r.executor
    validateExecutor executor w
    return { r with executor }
  else if isKeySection s.name then
    let keyId := trim (s.name.drop 4)
    let key ← parseKey keyId s.keys w
    return { r with trust := { r.trust with
      keys := fun id => if id = bytesOf keyId then some key else r.trust.keys id } }
  else
    let conn ← parseConnection binary r.executor s w
    return { r with
      conns := r.conns ++ [conn]
      defaultName := if r.defaultName = [] then s.name else r.defaultName }

/-- Every accepted id has its `[key …]` section. -/
def checkAccepted (w : String) (trust : TrustPolicy) : Except String Unit :=
  trust.accept.forM fun id =>
    if (trust.keys id).isNone then
      .error (w ++ ": [trust] accepts " ++ textOf id ++ " but there is no [key " ++ textOf id ++
        "] section")
    else .ok ()

def fromSections (binary : Binary) (w : String) (sections : List Section) :
    Except String Registry := do
  let r ← sections.foldlM (readSection binary w) {}
  checkAccepted w r.trust
  return r

/-- A file: its mode, unless it cannot be asked for, and what it holds, unless it cannot be
opened. -/
def fromIni (binary : Binary) (path : String) (mode : Option Nat) (content : Option Text) :
    Except String Registry :=
  match mode with
  | none => .error ("cannot stat config file " ++ path)
  | some mode =>
    if mode &&& 0o77 ≠ 0 then
      .error ("config file " ++ path ++ " is group- or world-accessible; it may hold a password, " ++
        "and it declares which signing keys are trusted. Run: chmod 600 " ++ path)
    else
      match content with
      | none => .error ("cannot open config file " ++ path)
      | some content => do
        let sections ← readIni path content
        fromSections binary path sections

end Config
end Laswell
