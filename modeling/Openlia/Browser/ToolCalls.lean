import Openlia.Browser.Lease

/-! # Tool calls under a lease

A call waits in the chain of the lease it was made under, then starts: the lease
is checked again, and a mutating tool is first looked up among the operations
already executed under the lease. The relay is the manager together with the
calls and, as a history that no function reads, the downstream calls of mutating
tools in the order in which they were begun.
-/

namespace Openlia.Browser

open Lib Json

def mutatingToolNames : List String :=
  ["browser_click", "browser_type", "browser_fill_form", "browser_press_key",
    "browser_select_option", "browser_handle_dialog", "browser_close"]

def maxCachedOperations : Nat := 128

/-- How an asynchronous call ends: with an error (also an abort or a timeout) or
with a result, which may be `undefined`. -/
abbrev CallAnswer := Except String (Option Json)

/-- A downstream call; only the mutating tools carry an operation id. -/
structure ToolCall where
  toolName : String
  operationId : Option String
  arguments : Json
  mutating : operationId ≠ none → toolName ∈ mutatingToolNames
  wellFormed : arguments.WellFormed

/-- A call without arguments. -/
theorem wellFormed_empty : (Json.obj []).WellFormed := ⟨List.nodup_nil, trivial⟩

/-! ## The call-tool handler -/

/-- White space and line ends, which `trim` removes. -/
def isSpace (c : Char) : Bool :=
  c.toNat ∈ [9, 10, 11, 12, 13, 32, 0xa0, 0x1680, 0x2028, 0x2029, 0x202f, 0x205f, 0x3000,
    0xfeff] || (0x2000 ≤ c.toNat && c.toNat ≤ 0x200a)

def trim (s : String) : String :=
  String.ofList ((s.toList.dropWhile isSpace).reverse.dropWhile isSpace).reverse

def isUnsafe (c : Char) : Bool :=
  c.toNat ≤ 0x1f || (0x7f ≤ c.toNat && c.toNat ≤ 0x9f) || c.toNat == 0x2028 || c.toNat == 0x2029

def safeTaskString (value : Option Json) (name : String) (required : Bool) :
    Except String (Option String) :=
  match value with
  | none =>
      if required then .error s!"{name} must be a non-empty string of 200 characters or fewer"
      else .ok none
  | some (.str s) =>
      if 200 < (utf16 s).length then
        .error s!"{name} must be a non-empty safe string of 200 characters or fewer"
      else if trim s = "" ∨ (trim s).toList.any isUnsafe = true then
        .error s!"{name} must be a non-empty safe string of 200 characters or fewer"
      else .ok (some (trim s))
  | some _ => .error s!"{name} must be a non-empty string of 200 characters or fewer"

/-- The members of the arguments, which may be missing or no object. -/
def argumentMembers : Option Json → List (String × Json)
  | some (.obj members) => members
  | _ => []

theorem argumentMembers_wellFormed {arguments : Option Json}
    (h : ∀ v ∈ arguments, v.WellFormed) : WellFormed (.obj (argumentMembers arguments)) := by
  match arguments, h with
  | some (.obj members), h => exact h _ rfl
  | none, _ | some .null, _ | some (.bool _), _ | some (.num _), _ | some (.str _), _
  | some (.arr _), _ => exact ⟨List.nodup_nil, trivial⟩

def downstreamArguments (arguments : Option Json) : Json :=
  .obj ((argumentMembers arguments).filter fun m => m.1 != "lease" && m.1 != "operation_id")

/-- The handler of a tool that is not one of the control tools, up to
`withCall`: the lease token and the call to make. -/
def callTool (allowedDownstreamToolNames : List String) (name : String)
    (arguments : Option Json) (parsed : ∀ v ∈ arguments, v.WellFormed) :
    Except String (String × ToolCall) :=
  have wellFormed : (downstreamArguments arguments).WellFormed :=
    (argumentMembers_wellFormed parsed).filter _
  if name ∉ allowedDownstreamToolNames then
    .error s!"browser tool {name} is not allowed by the relay"
  else
    match member (argumentMembers arguments) "lease" with
    | some (.str token) =>
        if token = "" then .error leaseRequired
        else if h : name ∈ mutatingToolNames then do
          let operationId ←
            safeTaskString (member (argumentMembers arguments) "operation_id") "operation_id" true
          .ok (token, ⟨name, operationId, downstreamArguments arguments, fun _ => h, wellFormed⟩)
        else
          .ok (token,
            ⟨name, none, downstreamArguments arguments, fun h => absurd rfl h, wellFormed⟩)
    | _ => .error leaseRequired

/-! ## Mutating operations -/

def cacheKey (toolName operationId : String) : String := toolName ++ "\x00" ++ operationId

def isUncertainToolResult : Option Json → Bool
  | some (.obj members) =>
      match member members "isError" with
      | some (.bool true) => true
      | _ => false
  | _ => false

/-- What `runMutating` records of an operation that has ended. -/
def operationRecord (argumentsKey : List Char) : CallAnswer → CachedBrowserOperation
  | .ok result =>
      ⟨argumentsKey, if isUncertainToolResult result then .uncertain else .success, result⟩
  | .error _ => ⟨argumentsKey, .uncertain, none⟩

/-- The oldest entry makes room for a new key; a key that is set again keeps its
place in the map. -/
def cachePut (cache : List (String × CachedBrowserOperation)) (key : String)
    (value : CachedBrowserOperation) : List (String × CachedBrowserOperation) :=
  if cache.any (·.1 == key) then cache.map fun e => if e.1 == key then (key, value) else e
  else (if maxCachedOperations ≤ cache.length then cache.tail else cache) ++ [(key, value)]

namespace ActiveBrowserLease

variable {T : Type}

/-- The first part of `runMutating`: the answer to a repeat, and `none` when the
operation is executed. -/
def runMutating (lease : ActiveBrowserLease T) (toolName operationId : String)
    (argumentsKey : List Char) : Option CallAnswer :=
  match lease.operationCache.lookup (cacheKey toolName operationId) with
  | none => none
  | some cached =>
      if cached.argumentsKey ≠ argumentsKey then
        some (.error (s!"operation_id {operationId} was reused with different arguments; " ++
          "use a new operation_id"))
      else
        match cached.outcome with
        | .uncertain =>
            some (.error (s!"operation {toolName}/{operationId} may have had side effects; " ++
              "do not retry, reconcile browser state before choosing a new operation_id"))
        | .success => some (.ok cached.result)

def cacheOperation (lease : ActiveBrowserLease T) (key : String)
    (value : CachedBrowserOperation) : ActiveBrowserLease T :=
  { lease with operationCache := cachePut lease.operationCache key value }

end ActiveBrowserLease

/-! ## Calls in the chain -/

/-- A call holds its lease from the start of its operation until `endCall`. -/
inductive CallPhase where
  | waiting
  | running (generation : Nat)
  | answered (generation : Nat) (answer : CallAnswer)
  | settled (answer : CallAnswer)

def CallPhase.Holds : CallPhase → Nat → Prop
  | .running g, generation => g = generation
  | .answered g _, generation => g = generation
  | _, _ => False

def CallPhase.isSettled : CallPhase → Bool
  | .settled _ => true
  | _ => false

structure BrowserCall where
  token : String
  tool : ToolCall
  previous : Option Nat
  phase : CallPhase

/-- A downstream call of a mutating tool. -/
structure Execution where
  call : Nat
  generation : Nat
  toolName : String
  operationId : String
  arguments : Json
  answer : Option CallAnswer

structure BrowserRelay (T : Type) where
  manager : BrowserLeaseManager T
  calls : List BrowserCall
  executions : List Execution
  clock : T

inductive BrowserAction where
  | request (purpose : String) (requestKey : Option String)
  | status (ticket : Option String)
  | touch (token : Option String)
  | release (token : Option String)
  | cancel (ticket lease : Option String)
  | health
  | withCall (token : String) (tool : ToolCall)
  | start (call : Nat)
  | answer (call : Nat) (answer : CallAnswer)
  | settle (call : Nat)
  | leaseTimer (generation : Nat)
  | queueTimer (ticket : String)

structure BrowserEvent (T : Type) where
  now : T
  action : BrowserAction

def setPhase (calls : List BrowserCall) (k : Nat) (phase : CallPhase) : List BrowserCall :=
  calls.modify k fun call => { call with phase }

/-- What the operation of a call does when it starts under `lease`. -/
def ToolCall.begin {T : Type} (tool : ToolCall) (call : Nat) (lease : ActiveBrowserLease T) :
    CallPhase × List Execution :=
  match tool.operationId with
  | none => (.running lease.generation, [])
  | some operationId =>
      match lease.runMutating tool.toolName operationId (stableJson tool.arguments) with
      | some answer => (.answered lease.generation answer, [])
      | none =>
          (.running lease.generation,
            [⟨call, lease.generation, tool.toolName, operationId, tool.arguments, none⟩])

namespace BrowserRelay

variable {T : Type}

def initial (clock : T) : BrowserRelay T := ⟨.initial, [], [], clock⟩

/-- The result of the call before in the chain is known. -/
def ready (s : BrowserRelay T) (call : BrowserCall) : Bool :=
  match call.previous with
  | none => true
  | some p => (s.calls[p]?).any fun previous => previous.phase.isSettled

variable [LinearOrder T] [Add T] (env : BrowserEnv T) (now : T)

def withCall (s : BrowserRelay T) (token : String) (tool : ToolCall) : BrowserRelay T :=
  match s.manager.validateCurrent env now (some token) with
  | (.error _, m) => { s with manager := m }
  | (.ok lease, m) =>
      { s with
        manager := { m with active := some { lease with callChain := some s.calls.length } }
        calls := s.calls ++ [⟨token, tool, lease.callChain, .waiting⟩] }

/-- The call's turn has come: `beginCall`, then the operation's first part. -/
def start (s : BrowserRelay T) (k : Nat) (call : BrowserCall) : BrowserRelay T :=
  match s.manager.beginCall env now call.token with
  | (.error e, m) => { s with manager := m, calls := setPhase s.calls k (.settled (.error e)) }
  | (.ok lease, m) =>
      let (phase, begun) := call.tool.begin k lease
      { s with
        manager := m
        calls := setPhase s.calls k phase
        executions := s.executions ++ begun }

/-- The downstream call ends, and a mutating operation is recorded on the lease
object, which matters only while that lease is active. -/
def answer (s : BrowserRelay T) (k : Nat) (call : BrowserCall) (generation : Nat)
    (answer : CallAnswer) : BrowserRelay T :=
  match call.tool.operationId with
  | none => { s with calls := setPhase s.calls k (.answered generation answer) }
  | some operationId =>
      let key := cacheKey call.tool.toolName operationId
      let value := operationRecord (stableJson call.tool.arguments) answer
      { s with
        manager := { s.manager with
          active := s.manager.active.map fun lease =>
            if lease.generation = generation then lease.cacheOperation key value else lease }
        calls := setPhase s.calls k (.answered generation answer)
        executions := s.executions.map fun e =>
          if e.call = k then { e with answer := some answer } else e }

/-- One step at `now`; `none` when the step is not possible. -/
def perform (s : BrowserRelay T) : BrowserAction → Option (BrowserRelay T)
  | .request purpose requestKey =>
      some { s with manager := (s.manager.request env now purpose requestKey).2 }
  | .status ticket => some { s with manager := (s.manager.status env now ticket).2 }
  | .touch token => some { s with manager := (s.manager.touch env now token).2 }
  | .release token => some { s with manager := (s.manager.release env now token).2 }
  | .cancel ticket lease => some { s with manager := (s.manager.cancel env now ticket lease).2 }
  | .health => some { s with manager := s.manager.reap env now }
  | .withCall token tool => some (withCall env now s token tool)
  | .start k =>
      match s.calls[k]? with
      | some call =>
          match call.phase with
          | .waiting => if s.ready call then some (start env now s k call) else none
          | _ => none
      | none => none
  | .answer k answer =>
      match s.calls[k]? with
      | some call =>
          match call.phase with
          | .running generation => some (s.answer k call generation answer)
          | _ => none
      | none => none
  | .settle k =>
      match s.calls[k]? with
      | some call =>
          match call.phase with
          | .answered generation answer =>
              some { s with
                manager := s.manager.endCall env now generation
                calls := setPhase s.calls k (.settled answer) }
          | _ => none
      | none => none
  | .leaseTimer generation =>
      some { s with manager := s.manager.expireActive env now generation }
  | .queueTimer ticket => some { s with manager := s.manager.expireQueued now ticket }

/-- The clock does not go back. -/
def step (s : BrowserRelay T) (e : BrowserEvent T) : Option (BrowserRelay T) :=
  if s.clock ≤ e.now then
    (s.perform env e.now e.action).map fun t => { t with clock := e.now }
  else none

def next (s : BrowserRelay T) (e : BrowserEvent T) (t : BrowserRelay T) : Prop :=
  s.step env e = some t

end BrowserRelay

end Openlia.Browser
