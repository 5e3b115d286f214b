import Mathlib.Order.Basic
import Openlia.Browser.StableJson

/-! # The browser lease manager

One lease at a time owns the shared browser; the other requests wait in a
queue. Every method reads the clock and first reaps what has expired. A method
runs without interruption, so all its clock readings are one instant. Instants
are any linear order with an addition: nothing here depends on how a number of
milliseconds is rounded.
-/

namespace Openlia.Browser

open Lib

structure QueuedBrowserRequest (T : Type) where
  ticket : String
  requestKey : Option String
  purpose : String
  ttlMs : T
  queuedAt : T
  expiresAt : T

inductive OperationOutcome where
  | success | uncertain
  deriving DecidableEq, Repr

structure CachedBrowserOperation where
  argumentsKey : List Char
  outcome : OperationOutcome
  result : Option Json

/-- A lease object; its generation is its identity. `callChain` names the call
whose result the next call waits for. -/
structure ActiveBrowserLease (T : Type) where
  ticket : String
  token : String
  requestKey : Option String
  generation : Nat
  purpose : String
  ttlMs : T
  expiresAt : T
  hardExpiresAt : T
  activeCalls : Nat
  fenced : Bool
  expiredPending : Bool
  releasePending : Bool
  callChain : Option Nat
  operationCache : List (String × CachedBrowserOperation)

/-- The settings and the source of UUIDs, which never draws one twice. -/
structure BrowserEnv (T : Type) where
  browserLeaseTtlMs : T
  browserLeaseMaxMs : T
  browserQueueTtlMs : T
  randomUUID : Nat → String
  randomUUID_injective : Function.Injective randomUUID
  randomUUID_ne_empty : ∀ n, randomUUID n ≠ ""

/-- `drawn` counts the UUIDs drawn so far. No method reads the two histories:
the tickets issued and the tickets granted, oldest first. -/
structure BrowserLeaseManager (T : Type) where
  active : Option (ActiveBrowserLease T)
  queue : List (QueuedBrowserRequest T)
  generation : Nat
  drawn : Nat
  requested : List String
  granted : List String

inductive BrowserLeaseResponse (T : Type) where
  | active (lease : ActiveBrowserLease T) (queuePosition : Option Nat)
  | queued (request : QueuedBrowserRequest T) (queuePosition : Nat)
  | idle (ticket : String)
  | released (ticket : String)
  | releasing (ticket : String)
  | cancelled (ticket : String)

def leaseRequired : String := "a valid current browser lease is required"

def leaseExpired : String := "browser lease has expired"

namespace ActiveBrowserLease

variable {T : Type}

def fence (lease : ActiveBrowserLease T) (expired : Bool) : ActiveBrowserLease T :=
  { lease with
    fenced := true
    expiredPending := lease.expiredPending || expired
    operationCache := [] }

/-- The timer that `armLeaseTimer` sets again may fire at any later time. -/
def touchLease [LinearOrder T] [Add T] (lease : ActiveBrowserLease T) (now : T) :
    ActiveBrowserLease T :=
  { lease with expiresAt := min (now + lease.ttlMs) lease.hardExpiresAt, expiredPending := false }

end ActiveBrowserLease

namespace BrowserLeaseManager

variable {T : Type}

def initial : BrowserLeaseManager T := ⟨none, [], 0, 0, [], []⟩

def removeQueued (m : BrowserLeaseManager T) (ticket : String) : BrowserLeaseManager T :=
  { m with queue := m.queue.filter fun item => item.ticket != ticket }

variable [LinearOrder T] [Add T] (env : BrowserEnv T) (now : T)

def grant (m : BrowserLeaseManager T) (ticket purpose : String) (ttlMs : T)
    (requestKey : Option String) : BrowserLeaseManager T :=
  let lease : ActiveBrowserLease T :=
    { ticket
      token := env.randomUUID m.drawn
      requestKey
      generation := m.generation + 1
      purpose
      ttlMs := min ttlMs env.browserLeaseMaxMs
      expiresAt := min (now + min ttlMs env.browserLeaseMaxMs) (now + env.browserLeaseMaxMs)
      hardExpiresAt := now + env.browserLeaseMaxMs
      activeCalls := 0
      fenced := false
      expiredPending := false
      releasePending := false
      callChain := none
      operationCache := [] }
  { m with
    active := some lease
    generation := m.generation + 1
    drawn := m.drawn + 1
    granted := m.granted ++ [ticket] }

/-- The loop of `grantNext` over the queue, while no lease is active. -/
def grantFrom (m : BrowserLeaseManager T) :
    List (QueuedBrowserRequest T) → BrowserLeaseManager T
  | [] => { m with queue := [] }
  | request :: rest =>
      if request.expiresAt ≤ now then grantFrom m rest
      else grant env now { m with queue := rest } request.ticket request.purpose request.ttlMs
        request.requestKey

def grantNext (m : BrowserLeaseManager T) : BrowserLeaseManager T :=
  match m.active with
  | some _ => m
  | none => grantFrom env now m m.queue

def releaseActive (m : BrowserLeaseManager T) (generation : Nat) : BrowserLeaseManager T :=
  match m.active with
  | some lease =>
      if lease.generation = generation then grantNext env now { m with active := none } else m
  | none => m

/-- Fence the active lease, and release it unless a call runs. -/
def fenceExpired (m : BrowserLeaseManager T) (lease : ActiveBrowserLease T) :
    BrowserLeaseManager T :=
  let m := { m with active := some (lease.fence true) }
  if lease.activeCalls = 0 then releaseActive env now m lease.generation else m

def reap (m : BrowserLeaseManager T) : BrowserLeaseManager T :=
  let m := { m with queue := m.queue.filter fun request => ¬ request.expiresAt ≤ now }
  match m.active with
  | some lease => if lease.expiresAt ≤ now then fenceExpired env now m lease else m
  | none => m

/-- `token` is `none` when the value passed is not a string. -/
def validateCurrent (m : BrowserLeaseManager T) (token : Option String) :
    Except String (ActiveBrowserLease T) × BrowserLeaseManager T :=
  let m := reap env now m
  match token, m.active with
  | some token, some lease =>
      if token = "" ∨ lease.token ≠ token ∨ lease.fenced = true then (.error leaseRequired, m)
      else if lease.expiresAt ≤ now then (.error leaseExpired, fenceExpired env now m lease)
      else (.ok lease, m)
  | _, _ => (.error leaseRequired, m)

/-- The checks are those of `validateCurrent`. -/
def beginCall (m : BrowserLeaseManager T) (token : String) :
    Except String (ActiveBrowserLease T) × BrowserLeaseManager T :=
  match validateCurrent env now m (some token) with
  | (.error e, m) => (.error e, m)
  | (.ok lease, m) =>
      let lease := { lease with activeCalls := lease.activeCalls + 1 }.touchLease now
      (.ok lease, { m with active := some lease })

def endCall (m : BrowserLeaseManager T) (generation : Nat) : BrowserLeaseManager T :=
  match m.active with
  | some lease =>
      if lease.generation = generation then
        let lease := { lease with activeCalls := lease.activeCalls - 1 }
        let m := { m with active := some lease }
        if lease.activeCalls = 0 ∧ (lease.fenced = true ∨ lease.expiresAt ≤ now) then
          releaseActive env now m generation
        else m
      else m
  | none => m

def request (m : BrowserLeaseManager T) (purpose : String) (requestKey : Option String) :
    BrowserLeaseResponse T × BrowserLeaseManager T :=
  let m := reap env now m
  let current := m.active.filter fun lease => requestKey.isSome && lease.requestKey == requestKey
  let queued := m.queue.find? fun item => requestKey.isSome && item.requestKey == requestKey
  match current, queued with
  | some lease, _ => (.active lease none, m)
  | none, some item =>
      (.queued item (m.queue.findIdx (fun other => other.ticket == item.ticket) + 1), m)
  | none, none =>
      let ticket := env.randomUUID m.drawn
      let m := { m with drawn := m.drawn + 1, requested := m.requested ++ [ticket] }
      if m.active.isNone && m.queue.isEmpty then
        let m := grant env now m ticket purpose env.browserLeaseTtlMs requestKey
        match m.active with
        | some lease => (.active lease none, m)
        | none => (.idle ticket, m)
      else
        let item : QueuedBrowserRequest T :=
          ⟨ticket, requestKey, purpose, env.browserLeaseTtlMs, now, now + env.browserQueueTtlMs⟩
        (.queued item (m.queue.length + 1), { m with queue := m.queue ++ [item] })

def status (m : BrowserLeaseManager T) (ticketValue : Option String) :
    Except String (BrowserLeaseResponse T) × BrowserLeaseManager T :=
  match ticketValue with
  | none | some "" => (.error "ticket is required", m)
  | some ticket =>
      let m := reap env now m
      match m.active.filter fun lease => lease.ticket == ticket with
      | some lease => (.ok (.active lease none), m)
      | none =>
          match m.queue.find? fun item => item.ticket == ticket with
          | some item =>
              (.ok (.queued item (m.queue.findIdx (fun other => other.ticket == ticket) + 1)), m)
          | none => (.ok (.idle ticket), m)

def touch (m : BrowserLeaseManager T) (token : Option String) :
    Except String (BrowserLeaseResponse T) × BrowserLeaseManager T :=
  match validateCurrent env now m token with
  | (.error e, m) => (.error e, m)
  | (.ok lease, m) =>
      let lease := lease.touchLease now
      (.ok (.active lease none), { m with active := some lease })

def release (m : BrowserLeaseManager T) (token : Option String) :
    Except String (BrowserLeaseResponse T) × BrowserLeaseManager T :=
  match validateCurrent env now m token with
  | (.error e, m) => (.error e, m)
  | (.ok lease, m) =>
      let m := { m with active := some ({ lease with releasePending := true }.fence false) }
      if lease.activeCalls = 0 then
        (.ok (.released lease.ticket), releaseActive env now m lease.generation)
      else (.ok (.releasing lease.ticket), m)

def cancel (m : BrowserLeaseManager T) (ticketValue leaseValue : Option String) :
    Except String (BrowserLeaseResponse T) × BrowserLeaseManager T :=
  let m := reap env now m
  if leaseValue.any (· != "") then release env now m leaseValue
  else
    match ticketValue with
    | none | some "" => (.error "ticket or lease is required", m)
    | some ticket =>
        match m.active.filter fun lease => lease.ticket == ticket with
        | some lease => release env now m (some lease.token)
        | none =>
            match m.queue.find? fun item => item.ticket == ticket with
            | none => (.error "browser task not found", m)
            | some item => (.ok (.cancelled ticket), m.removeQueued item.ticket)

/-- The callback of a lease's timer, on time, early or late. -/
def expireActive (m : BrowserLeaseManager T) (generation : Nat) : BrowserLeaseManager T :=
  match m.active with
  | some lease =>
      if lease.generation ≠ generation ∨ lease.fenced = true then m
      else if now < lease.expiresAt then m
      else fenceExpired env now m lease
  | none => m

/-- The callback of a queued request's timer. -/
def expireQueued (m : BrowserLeaseManager T) (ticket : String) : BrowserLeaseManager T :=
  match m.queue.find? fun item => item.ticket == ticket with
  | some request => if now < request.expiresAt then m else m.removeQueued request.ticket
  | none => m

end BrowserLeaseManager

end Openlia.Browser
