import Laswell.Base.Checks
import Laswell.Canonical.Json

/-!
# Laswell.Document.Reading

How the parser of specifications reads a document. Most readings ask first what is there and refuse
the document (`SpecError`) where it is something else; `value` with a default, `get` and `dump` do
not ask, and throw a `json::type_error` of their own.

* `refuse`: `if (bad) fail(what, hint)`. The hint is advice, and left out.
* `valueText`, `valueFlag`, `getText`, `dump`: the readings that do not ask.
* `requireString`, `requireIdentifier`, `rejectUnknownKeys`, `rowKeyColumns`, `periodFlag`: the
  parser's helpers, which refuse and do nothing else.
-/

namespace Laswell
namespace Document

open Base Canonical

/-- What a parser throws. -/
inductive Thrown where
  | specError (what : Bytes)
  | typeError
  | runtimeError (what : Bytes)
  deriving DecidableEq

def Thrown.isSpecError : Thrown → Bool
  | .specError _ => true
  | .typeError => false
  | .runtimeError _ => false

abbrev Parse (α : Type) := Checking Thrown α

/-- A literal of the source, where bytes are wanted. -/
scoped instance : Coe String Bytes := ⟨ascii⟩

def quotedWord (s : Bytes) : Bytes := ascii "\"" ++ s ++ ascii "\""

/-! ## Documents -/

section Json

variable (j : Json)

def isObject : Bool := match j with | .object _ => true | _ => false

def isArray : Bool := match j with | .array _ => true | _ => false

def isString : Bool := match j with | .string _ => true | _ => false

def isBoolean : Bool := match j with | .boolean _ => true | _ => false

def isNull : Bool := match j with | .null => true | _ => false

def isInteger : Bool :=
  match j with
  | .numberInteger _ => true
  | .numberUnsigned _ => true
  | _ => false

def isNumber : Bool := match j with | .numberFloat _ => true | _ => isInteger j

def members : List (Bytes × Json) := match j with | .object ms => ms | _ => []

/-- What a loop over a value goes through: a value that is neither a list nor an object is its own
one element, and `null` has none. -/
def elements : List Json :=
  match j with
  | .array es => es
  | .object ms => ms.map Prod.snd
  | .null => []
  | _ => [j]

def size : Nat := (elements j).length

def isEmpty : Bool := decide (size j = 0)

def text : Bytes := match j with | .string s => s | _ => []

def flag : Bool := match j with | .boolean b => b | _ => false

/-- `get<int>()` -/
def intOf : Int :=
  match j with
  | .numberInteger n => (BitVec.ofInt 32 n.toInt).toInt
  | .numberUnsigned n => (BitVec.ofNat 32 n.toNat).toInt
  | _ => 0

def member? (key : Bytes) : Option Json :=
  ((members j).find? fun m => m.1 == key).map Prod.snd

def has (key : String) : Bool := (member? j key).isSome

def at_ (key : String) : Json := (member? j key).getD .null

/-- A string, and not the empty one. -/
def isWord : Bool := isString j && !(text j).isEmpty

/-- A list, and not the empty one. -/
def isList : Bool := isArray j && !isEmpty j

/-- A string that is one of these. -/
def isOneOf (words : List String) : Bool :=
  isString j && words.any fun w => ascii w == text j

end Json

def oneOf (words : List String) (s : Bytes) : Bool := words.any fun w => ascii w == s

mutual

/-- `dump` puts every string of a value into the text, and throws at one that is not UTF-8. -/
def stringsOf : Json → List Bytes
  | .string s => [s]
  | .array es => elementStrings es
  | .object ms => memberStrings ms
  | _ => []
termination_by structural j => j

def elementStrings : List Json → List Bytes
  | [] => []
  | e :: es => stringsOf e ++ elementStrings es
termination_by structural es => es

def memberStrings : List (Bytes × Json) → List Bytes
  | [] => []
  | (name, v) :: ms => name :: stringsOf v ++ memberStrings ms
termination_by structural ms => ms

end

/-! ## Checks -/

def refuse (bad : Bool) (what : Bytes) : Parse Unit := .require (.specError what) (!bad)

/-- `value(key, "...")` -/
def valueText (j : Json) (key : String) (default : Bytes) : Parse Bytes := do
  .require .typeError (!has j key || isString (at_ j key))
  return if has j key then text (at_ j key) else default

/-- `value(key, true)` and `value(key, false)` -/
def valueFlag (j : Json) (key : String) (default : Bool) : Parse Bool := do
  .require .typeError (!has j key || isBoolean (at_ j key))
  return if has j key then flag (at_ j key) else default

/-- `value(key, json::array())`, which takes what is there -/
def valueElements (j : Json) (key : String) : List Json :=
  if has j key then elements (at_ j key) else []

/-- `get<std::string>()` -/
def getText (j : Json) : Parse Bytes := do
  .require .typeError (isString j)
  return text j

/-- `dump()`, for the text of an error -/
def dump (j : Json) : Parse Unit :=
  .require .typeError ((stringsOf j).all utf8)

/-- `if (bad) fail(what + dumped.dump(), hint)` -/
def refuseDumping (bad : Bool) (what : Bytes) (dumped : Json) : Parse Unit :=
  if bad then do
    dump dumped
    refuse true what
  else return

/-- `require_identifier` -/
def requireIdentifier (v field : Bytes) (ordinal : Nat) : Parse Unit := do
  let place : Bytes := "intents[" ++ natDigits ordinal ++ "]." ++ field
  refuse v.isEmpty (place ++ " is empty")
  refuse (decide (63 < v.length)) (place ++ " is longer than 63 bytes (" ++ quotedWord v ++ ")")
  refuse (!v.head?.any fun c => (0x61 ≤ c && c ≤ 0x7A) || c == 0x5F)
    (place ++ " must start with a lower-case letter or underscore (" ++ quotedWord v ++ ")")
  v.forM fun c =>
    refuse (!((0x61 ≤ c && c ≤ 0x7A) || (0x30 ≤ c && c ≤ 0x39) || c == 0x5F))
      (place ++ " contains a character that would need quoting (" ++ quotedWord v ++ ")")

/-- `require_string` -/
def requireString (j : Json) (key : String) (place : Bytes) : Parse Bytes := do
  refuse (!isWord (at_ j key)) (place ++ " is missing a non-empty " ++ quotedWord key)
  return text (at_ j key)

/-- `reject_unknown_keys` -/
def rejectUnknownKeys (j : Json) (allowed : List String) (place : Bytes) : Parse Unit :=
  (members j).forM fun m =>
    refuse (!oneOf allowed m.1) (place ++ " has an unknown key " ++ quotedWord m.1)

structure Intent where
  ordinal : Nat
  body : Json

def Intent.place (in_ : Intent) : Bytes := "intents[" ++ natDigits in_.ordinal ++ "]"

namespace Intent

variable (in_ : Intent)

def keys (allowed : List String) : Parse Unit := rejectUnknownKeys in_.body allowed in_.place

/-- `require_identifier(require_string(in.body, key, at), key, in.ordinal)` -/
def identifier (key : String) : Parse Unit := do
  requireIdentifier (← requireString in_.body key in_.place) key in_.ordinal

/-- `require_string(in.body, key, at)`, for what it refuses -/
def string (key : String) : Parse Unit := do
  let _ ← requireString in_.body key in_.place

/-- A key that has to be stated, as a boolean. -/
def statedFlag (key : String) (what : Bytes) : Parse Unit :=
  refuse (!isBoolean (at_ in_.body key)) (in_.place ++ what)

/-- A boolean, where the key is given. -/
def optionalFlag (key : String) (what : Bytes) : Parse Unit :=
  refuse (has in_.body key && !isBoolean (at_ in_.body key)) (in_.place ++ what)

/-- A list of at least one, under a key that has to be given. -/
def list (key : String) (what : Bytes) : Parse Unit :=
  refuse (!isList (at_ in_.body key)) (in_.place ++ what)

/-- Elements that are strings, and identifiers. -/
def identifiers (es : List Json) (key : String) (what : Bytes) : Parse Unit :=
  es.forM fun e => do
    refuse (!isString e) (in_.place ++ what)
    requireIdentifier (text e) key in_.ordinal

/-- Names, each under a key of its own. -/
def names (keys : List String) : Parse Unit := keys.forM fun key => in_.identifier key

/-- An integer, where the key is given. -/
def optionalInteger (key : String) : Parse Unit :=
  refuse (has in_.body key && !isInteger (at_ in_.body key))
    (in_.place ++ "." ++ key ++ " must be an integer")

/-- One of the keys that say what to change has to be given. -/
def changes (keys : List String) : Parse Unit :=
  refuse (keys.all fun key => !has in_.body key) (in_.place ++ " changes nothing")

/-- Elements that are strings, identifiers and all different; `seen` are those before. -/
def distinct (key : String) (what : Bytes) (twice : Bytes → Bytes) :
    List Bytes → List Json → Parse Unit
  | _, [] => return
  | seen, e :: es => do
    refuse (!isString e) (in_.place ++ what)
    requireIdentifier (text e) key in_.ordinal
    refuse (seen.contains (text e)) (in_.place ++ twice (text e))
    distinct key what twice (seen ++ [text e]) es

end Intent

/-- Two keys of a list are the same column. -/
def refuseTwice (place : Bytes) (earlier : List Bytes) (key : Bytes) : Parse Unit :=
  earlier.forM fun k => refuse (k == key) (place ++ ".key names " ++ quotedWord key ++ " twice")

/-- The columns of a key, each one against those before it. -/
def checkKeys (in_ : Intent) : List Bytes → List Bytes → Parse Unit
  | _, [] => return
  | earlier, k :: rest => do
    requireIdentifier k "key" in_.ordinal
    refuseTwice in_.place earlier k
    checkKeys in_ (earlier ++ [k]) rest

/-- `row_key_columns` -/
def rowKeyColumns (in_ : Intent) (required : Bool) : Parse (List Bytes) :=
  if !has in_.body "key" then do
    refuse required (in_.place ++ " is missing a non-empty \"key\"")
    return []
  else do
    let v := at_ in_.body "key"
    let keys : List Bytes := if isString v then [text v] else (elements v).map text
    if !isString v then
      refuse (!isList v) (in_.place ++ ".key must be a column name or a non-empty list of column " ++
        "names")
      (elements v).forM fun c =>
        refuse (!isString c) (in_.place ++ ".key must be a column name or a list of column names")
    checkKeys in_ [] keys
    return keys

/-- `period_flag` -/
def periodFlag (j : Json) (key list : String) (place : Bytes) : Parse Unit :=
  if !has j key then return
  else do
    refuse (!isBoolean (at_ j key)) (place ++ "." ++ key ++ " must be a boolean")
    if flag (at_ j key) then
      refuse (!isArray (at_ j list) || decide (size (at_ j list) < 2))
        (place ++ "." ++ key ++ " needs at least two columns in " ++ quotedWord list)

/-! ## What is open -/

/-- The checks that throw something other than a `SpecError`. -/
abbrev unguarded {α : Type} (p : Parse α) : List (Check Thrown) := p.opens Thrown.isSpecError

/-- A text and a flag read with a default, a text read with none, and a value dumped. -/
def textRead (j : Json) (key : String) : Check Thrown :=
  ⟨.typeError, !has j key || isString (at_ j key)⟩

def flagRead (j : Json) (key : String) : Check Thrown :=
  ⟨.typeError, !has j key || isBoolean (at_ j key)⟩

def getRead (j : Json) : Check Thrown := ⟨.typeError, isString j⟩

def dumpRead (j : Json) : Check Thrown :=
  ⟨.typeError, (stringsOf j).all utf8⟩

/-- The elements that are none of the words, dumped. -/
def dumpsOf (words : List String) (es : List Json) : List (Check Thrown) :=
  es.flatMap fun e => if !isOneOf e words then [dumpRead e] else []

section Unguarded

@[simp] theorem unguarded_refuse (bad : Bool) (what : Bytes) : unguarded (refuse bad what) = [] :=
  Checking.open_require rfl

@[simp] theorem unguarded_valueText (j : Json) (key : String) (default : Bytes) :
    unguarded (valueText j key default) = [textRead j key] := rfl

@[simp] theorem unguarded_valueFlag (j : Json) (key : String) (default : Bool) :
    unguarded (valueFlag j key default) = [flagRead j key] := rfl

@[simp] theorem unguarded_getText (j : Json) : unguarded (getText j) = [getRead j] := rfl

@[simp] theorem unguarded_refuseDumping (bad : Bool) (what : Bytes) (dumped : Json) :
    unguarded (refuseDumping bad what dumped) = if bad then [dumpRead dumped] else [] := by
  cases bad <;> rfl

@[simp] theorem unguarded_requireIdentifier (v field : Bytes) (ordinal : Nat) :
    unguarded (requireIdentifier v field ordinal) = [] := by
  simp [requireIdentifier]

@[simp] theorem unguarded_requireString (j : Json) (key : String) (place : Bytes) :
    unguarded (requireString j key place) = [] := by simp [requireString]

@[simp] theorem unguarded_rejectUnknownKeys (j : Json) (allowed : List String) (place : Bytes) :
    unguarded (rejectUnknownKeys j allowed place) = [] := by simp [rejectUnknownKeys]

@[simp] theorem unguarded_periodFlag (j : Json) (key list : String) (place : Bytes) :
    unguarded (periodFlag j key list place) = [] := by simp [periodFlag]

variable (in_ : Intent)

@[simp] theorem unguarded_keys (allowed : List String) : unguarded (in_.keys allowed) = [] := by
  simp [Intent.keys]

@[simp] theorem unguarded_identifier (key : String) : unguarded (in_.identifier key) = [] := by
  simp [Intent.identifier]

@[simp] theorem unguarded_string (key : String) : unguarded (in_.string key) = [] := by
  simp [Intent.string]

@[simp] theorem unguarded_statedFlag (key : String) (what : Bytes) :
    unguarded (in_.statedFlag key what) = [] := by simp [Intent.statedFlag]

@[simp] theorem unguarded_optionalFlag (key : String) (what : Bytes) :
    unguarded (in_.optionalFlag key what) = [] := by simp [Intent.optionalFlag]

@[simp] theorem unguarded_list (key : String) (what : Bytes) :
    unguarded (in_.list key what) = [] := by simp [Intent.list]

@[simp] theorem unguarded_identifiers (es : List Json) (key : String) (what : Bytes) :
    unguarded (in_.identifiers es key what) = [] := by simp [Intent.identifiers]

@[simp] theorem unguarded_names (keys : List String) : unguarded (in_.names keys) = [] := by
  simp [Intent.names]

@[simp] theorem unguarded_optionalInteger (key : String) :
    unguarded (in_.optionalInteger key) = [] := unguarded_refuse _ _

@[simp] theorem unguarded_changes (keys : List String) : unguarded (in_.changes keys) = [] :=
  unguarded_refuse _ _

@[simp] theorem unguarded_distinct (key : String) (what : Bytes) (twice : Bytes → Bytes)
    (es : List Json) : ∀ seen, unguarded (in_.distinct key what twice seen es) = [] := by
  induction es with
  | nil =>
    intro seen
    rfl
  | cons e es ih =>
    intro seen
    simp [Intent.distinct, ih]

@[simp] theorem unguarded_checkKeys (keys : List Bytes) :
    ∀ earlier, unguarded (checkKeys in_ earlier keys) = [] := by
  induction keys with
  | nil =>
    intro earlier
    rfl
  | cons k rest ih =>
    intro earlier
    simp [checkKeys, refuseTwice, ih]

@[simp] theorem unguarded_rowKeyColumns (required : Bool) :
    unguarded (rowKeyColumns in_ required) = [] := by
  unfold rowKeyColumns
  split <;> simp

end Unguarded

end Document
end Laswell
