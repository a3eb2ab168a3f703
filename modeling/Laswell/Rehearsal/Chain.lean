import Laswell.Deploy.Deployment
import Laswell.Rehearsal.Steps

/-!
# Laswell.Rehearsal.Chain

`Deployment::run_chain` over `ChainRehearsal`: every pending specification in order, each on top of
the ones before it on its connection, in one transaction per connection that is rolled back.

* `Txn`: an open transaction, with its savepoints, and what may be asked of the server in it.
* `session`: the operations of `rehearse_steps` on such a transaction.
* `rehearseOn`: one specification on the transaction of its connection, inside a savepoint.
* `runChain`: the loop over the order, and the end of every transaction.
-/

namespace Laswell
namespace Rehearsal

open Base Repository

/-! ## A transaction -/

/-- What transaction commands read and change: `data` is what the transaction sees, and each
savepoint holds what it saw when the savepoint was made, the newest first. -/
structure Block (δ : Type) where
  committed : δ
  data : δ
  savepoints : List (String × δ) := []
  inBlock : Bool := true

/-- `asked` counts what the server has been asked. -/
structure Txn (δ : Type) extends Block δ where
  aborted : Bool := false
  isOpen : Bool := true
  asked : Nat := 0

inductive Reply (α : Type) where
  | got (a : α)
  | refused (fault : Fault)
  | lost (what : String)

/-- What a statement makes of the data. The text of a definition goes to the server as it was
signed, so it may hold transaction commands of its own: it is then `controlled`. -/
inductive Effect (δ : Type) where
  | made (data : δ)
  | controlled (after : Block δ)

/-- What the server answers one connection, given how much it has been asked and what the
transaction sees. -/
structure Server (δ ω : Type) where
  version : Nat
  control : Nat → Command → Reply Unit
  answers : Nat → String → δ → Reply (Effect δ)
  copies : Nat → CopyPayload → δ → Reply δ
  /-- with how many of the readings of modules have raised -/
  observes : Nat → RepoEntry → δ → Reply (ω × Nat)

section

variable {δ ω α : Type}

abbrev OnTxn (δ α : Type) := Prog (Txn δ) Fault α

/-- An error in a transaction block aborts it. -/
def refuse (fault : Fault) : OnTxn δ α := fun t =>
  (.err fault, { t with aborted := t.aborted || t.inBlock })

def ask (reply : Txn δ → Reply α) : OnTxn δ α := do
  let isOpen ← Prog.gets Txn.isOpen
  let answer ← Prog.gets reply
  Prog.modify fun t => { t with asked := t.asked + 1 }
  if isOpen then
    match answer with
    | .got a => pure a
    | .refused fault => refuse fault
    | .lost what => do
      Prog.modify fun t => { t with isOpen := false }
      Prog.throw (.brokenConnection what)
  else Prog.throw (.brokenConnection "Lost connection to the database server.")

/-- In an aborted block only a rollback is accepted. -/
def notAborted : OnTxn δ Unit := do
  if ← Prog.gets Txn.aborted then
    refuse (.sqlError "25P02"
      "current transaction is aborted, commands ignored until end of transaction block")

def insideBlock : OnTxn δ Unit := do
  if !(← Prog.gets fun t => t.inBlock) then
    refuse (.sqlError "25P01" "there is no transaction in progress")

/-- What the newest savepoint of a name holds, and the savepoints older than it. -/
def unwound (name : String) : List (String × δ) → Option (δ × List (String × δ))
  | [] => none
  | (n, saved) :: older => if n = name then some (saved, older) else unwound name older

/-- Outside a transaction block a statement is committed as it ends. -/
def Txn.take (t : Txn δ) : Effect δ → Txn δ
  | .made data => { t with data, committed := if t.inBlock then t.committed else data }
  | .controlled after => { t with toBlock := after }

variable (srv : Server δ ω)

/-- `txn.exec` -/
def exec : Command → OnTxn δ Unit
  | .savepoint name => do
    ask fun t => srv.control t.asked (.savepoint name)
    insideBlock
    notAborted
    Prog.modify fun t => { t with savepoints := (name, t.data) :: t.savepoints }
  | .rollbackTo name => do
    ask fun t => srv.control t.asked (.rollbackTo name)
    insideBlock
    match ← Prog.gets fun t => unwound name t.savepoints with
    | none => refuse (.sqlError "3B001" ("savepoint \"" ++ name ++ "\" does not exist"))
    | some (saved, older) => Prog.modify fun t =>
        { t with data := saved, savepoints := (name, saved) :: older, aborted := false }
  | .release name => do
    ask fun t => srv.control t.asked (.release name)
    insideBlock
    notAborted
    match ← Prog.gets fun t => unwound name t.savepoints with
    | none => refuse (.sqlError "3B001" ("savepoint \"" ++ name ++ "\" does not exist"))
    | some (_, older) => Prog.modify fun t => { t with savepoints := older }
  | .sql text => do
    let effect ← ask fun t => srv.answers t.asked text t.data
    notAborted
    Prog.modify fun t => t.take effect

def streamCopy (payload : CopyPayload) : OnTxn δ Unit := do
  let data ← ask fun t => srv.copies t.asked payload t.data
  notAborted
  Prog.modify fun t => t.take (.made data)

/-- `observe_in`. The reading of a module is made in a savepoint, and one that raises is rolled back
to it and leaves it there. -/
def observeIn (e : RepoEntry) : OnTxn δ ω := do
  let (obs, raised) ← ask fun t => srv.observes t.asked e t.data
  notAborted
  Prog.modify fun t =>
    { t with
      savepoints := List.replicate raised ("laswell_module_reading", t.data) ++ t.savepoints }
  pure obs

/-! ## The check of a statement -/

/-- A query is planned, and anything else is executed. -/
def isQuery (stmt : String) (execute : Bool) : Bool :=
  let head := String.ofList (stmt.toList.takeWhile fun c => !(c ∈ [' ', '\n']))
  !execute && (hasPrefix "WITH" stmt ||
    head ∈ ["UPDATE", "INSERT", "SELECT", "DELETE", "MERGE"])

/-- `EXPLAIN (GENERIC_PLAN)`, and whether the server made the plan. -/
def explained (stmt : String) : OnTxn δ Bool := do
  exec srv (.savepoint "laswell_generic_plan")
  Prog.tryCatch (do
      exec srv (.sql ("EXPLAIN (GENERIC_PLAN, FORMAT JSON) " ++ stmt))
      exec srv (.release "laswell_generic_plan")
      pure true)
    fun
    | .sqlError _ _ => do
      exec srv (.rollbackTo "laswell_generic_plan")
      exec srv (.release "laswell_generic_plan")
      pure false
    | fault => Prog.throw fault

def prepared (stmt : String) : OnTxn δ Bool := do
  exec srv (.sql ("PREPARE laswell_dry AS " ++ stmt))
  exec srv (.sql "DEALLOCATE laswell_dry")
  pure true

/-- Whether the check was only weak. -/
def verifyStatement (stmt : String) (execute : Bool) : OnTxn δ Bool := do
  if !isQuery stmt execute then do
    exec srv (.sql stmt)
    pure false
  else if 160000 ≤ srv.version then do
    if ← explained srv stmt then pure false else prepared srv stmt
  else prepared srv stmt

def session : Session (Txn δ) where
  verifyStatement := verifyStatement srv
  exec := exec srv
  streamCopy := streamCopy srv
  isOpen := Txn.isOpen

end

/-! ## One specification -/

inductive Gates where
  | accepted
  | refused
  | threw (fault : Fault)
deriving DecidableEq

inductive Planned where
  | conflicts
  | steps (steps : List Step)
  | threw (fault : Fault)

/-- What a chain runs against. `parses` is what becomes of the document, `gates` of the connection's
name and of the trust gates, and `opens` what the beginning of a transaction throws. -/
structure Env (δ ω : Type) where
  readable : String → Bool
  parses : RepoEntry → Gates
  defaultConnection : String
  gates : RepoEntry → Gates
  opens : String → Option Fault
  server : String → Server δ ω
  plans : RepoEntry → ω → Planned

/-- One specification on its connection: what the transaction saw before it, and, if its savepoint
was released, what it then saw. -/
structure Attempt (δ : Type) where
  id : String
  before : δ
  left : Option δ := none

/-- The transaction of a connection. Nothing reads `attempts`, the newest first. -/
structure Link (δ : Type) where
  txn : Txn δ
  skippedAny : Bool := false
  attempts : List (Attempt δ) := []

section

variable {δ ω α : Type}

def onTxn (p : OnTxn δ α) : Prog (Link δ) Fault α := fun k =>
  let (o, t) := p k.txn
  (o, { k with txn := t })

def onWorld (p : Run (Txn δ) α) : Prog (Link δ) Fault α := fun k =>
  let (o, w) := p { session := k.txn, skippedAny := k.skippedAny }
  (o, { k with txn := w.session, skippedAny := w.skippedAny })

def began (id : String) : Prog (Link δ) Fault Unit := Prog.modify fun k =>
  { k with attempts := { id, before := k.txn.data } :: k.attempts }

def kept : Prog (Link δ) Fault Unit := Prog.modify fun k =>
  match k.attempts with
  | [] => k
  | a :: earlier => { k with attempts := { a with left := some k.txn.data } :: earlier }

def chainSpec : String := "laswell_chain_spec"

def undo (srv : Server δ ω) : Prog (Link δ) Fault Unit := do
  onTxn (exec srv (.rollbackTo chainSpec))
  onTxn (exec srv (.release chainSpec))

/-- What of the plan is kept, or undone. -/
def rehearsePlan (srv : Server δ ω) : Planned → Prog (Link δ) Fault Deploy.Rehearsal
  | .conflicts => do
    undo srv
    pure .refused
  | .threw fault => Prog.throw fault
  | .steps steps => do
    match ← onWorld (rehearseSteps (session srv) steps) with
    | .ok => do
      onTxn (exec srv (.release chainSpec))
      kept
      pure .rehearsed
    | .failed => do
      undo srv
      pure .failed
    | .timedOut | .gap => do
      undo srv
      pure .incomplete

/-- `ChainRehearsal::rehearse` from the savepoint on. -/
def rehearseOn (env : Env δ ω) (srv : Server δ ω) (e : RepoEntry) :
    Prog (Link δ) Fault Deploy.Rehearsal := do
  onTxn (exec srv (.savepoint chainSpec))
  began e.specId
  Prog.tryCatch (do
      let obs ← onTxn (observeIn srv e)
      rehearsePlan srv (env.plans e obs))
    fun _ => do
      undo srv
      pure .refused

/-! ## The chain -/

inductive Line where
  | came (outcome : Deploy.Rehearsal)
  | notRehearsed (cause : String)
deriving DecidableEq

/-- `databases` is what is committed on each connection, and `lines` what was printed. Nothing reads
`history`, the attempts of the connections that are closed. -/
structure Chaining (δ : Type) where
  databases : String → δ
  links : String → Option (Link δ) := fun _ => none
  lines : List (RepoEntry × Line) := []
  history : String → List (Attempt δ) := fun _ => []

def Chaining.setLink (r : Chaining δ) (name : String) (link : Link δ) : Chaining δ :=
  { r with links := fun n => if n = name then some link else r.links n }

abbrev InChain (δ α : Type) := Prog (Chaining δ) Fault α

variable (env : Env δ ω)

def Env.connectionOf (e : RepoEntry) : String :=
  if e.connection = "" then env.defaultConnection else e.connection

def linkFor (name : String) : InChain δ (Link δ) := do
  match ← Prog.gets fun r => r.links name with
  | some link => pure link
  | none =>
    match env.opens name with
    | some fault => Prog.throw fault
    | none => do
      let data ← Prog.gets fun r => r.databases name
      let link : Link δ := { txn := { committed := data, data } }
      Prog.modify fun r => r.setLink name link
      pure link

def onLink (name : String) (link : Link δ) (p : Prog (Link δ) Fault α) : InChain δ α := fun r =>
  let (o, link) := p link
  (o, r.setLink name link)

/-- `ChainRehearsal::rehearse` -/
def rehearse (e : RepoEntry) : InChain δ Deploy.Rehearsal := do
  match env.parses e with
  | .refused => pure .refused
  | .threw fault => Prog.throw fault
  | .accepted =>
    match env.gates e with
    | .refused => pure .refused
    | .threw fault => Prog.throw fault
    | .accepted => do
      let name := env.connectionOf e
      let link ← linkFor env name
      onLink name link (rehearseOn env (env.server name) e)

def line (e : RepoEntry) (what : Line) : InChain δ Unit := Prog.modify fun r =>
  { r with lines := r.lines ++ [(e, what)] }

/-- The loop of `run_chain`, in which a specification that depends on a broken one is broken. -/
def chainLoop : Deploy.Chain → List RepoEntry → InChain δ Deploy.DeployResult
  | c, [] => pure (if c.failed + c.incomplete + c.blocked = 0 then .ok else .refused)
  | c, e :: rest =>
    match e.dependsOn.find? fun d => c.broken.contains d with
    | some cause => do
      line e (.notRehearsed cause)
      chainLoop { c with broken := e.specId :: c.broken, blocked := c.blocked + 1 } rest
    | none => do
      if env.readable e.path then do
        let outcome ← rehearse env e
        line e (.came outcome)
        chainLoop (c.rehearsed e.specId outcome) rest
      else pure .repoProblem

/-- `ChainRehearsal::end`: what a transaction has not committed is gone. -/
def Chaining.ended (r : Chaining δ) : Chaining δ :=
  { r with
    databases := fun n => ((r.links n).map fun k => k.txn.committed).getD (r.databases n)
    links := fun _ => none
    history := fun n => ((r.links n).map Link.attempts).getD (r.history n) }

def runChain (l : Listing) : InChain δ Deploy.DeployResult :=
  (chainLoop env {} (Deploy.pendingOf l.migrations l.specs)).leaving Chaining.ended

end

end Rehearsal
end Laswell
