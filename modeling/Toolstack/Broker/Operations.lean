import Toolstack.Broker.Lifecycle

/-! `broker/operations.py`: the operator's mutations, shared by the command line and the admin
panel, each a sequence of store transactions. -/

namespace Toolstack.Broker.Operations

open Interleave.Prog (raise)

/-- `spec.partition(".")`. -/
def partition (spec : String) : String × String :=
  let tool := spec.toList.takeWhile (· ≠ '.')
  (String.ofList tool, String.ofList (spec.toList.drop (tool.length + 1)))

def grant (effect : String) (tools : Dict (Dict String)) (spec : String) : Dict (Dict String) :=
  let (tool, op) := partition spec
  tools.set tool (((tools.get tool).getD []).set op effect)

/-- A later list wins for the same key: review, then allow, then deny. -/
def buildPolicy (allow review deny : List String) : Policy :=
  let tools := deny.foldl (grant "deny") (allow.foldl (grant "allow") (review.foldl (grant "review") []))
  { tools := some tools }

def requireCaller (name : String) : Action CallerRow := do
  match ← perform (.callerByName name) with
  | some caller => return caller
  | none => raise .lookupError

def recordAdminEvent (operator eventType : String) (details : List (String × Json)) :
    Action Unit := do
  let correlationId : Text ← perform .token
  perform (.appendAudit "admin" eventType "ok" correlationId none
    (("operator", strJson operator) :: details))

def storePolicy (callerId : Nat) (policy : Policy) : Action Unit := do
  match ← perform (.setPolicy callerId policy) with
  | .ok () => return ()
  | .error e => raise e

/-- A fresh token for the caller; the raw token is returned once. -/
def newToken (H : Hash) (callerId : Nat) : Action Text := do
  let token : Text ← perform .token
  match ← perform (.addToken callerId (H.digest token)) with
  | .ok () => return token
  | .error e => raise e

def createCaller (H : Hash) (name : String) (allow review deny : List String) (operator : String) :
    Action Text := do
  match ← perform (.addCaller name) with
  | .error e => raise e
  | .ok callerId => do
    let token ← newToken H callerId
    storePolicy callerId (buildPolicy allow review deny)
    recordAdminEvent operator "caller_created" [("name", strJson name)]
    return token

/-- One line of the work list: disarm the request, then withdraw its card. -/
def cancelRow (surface : Bool) (operator reason : String) (row : Db.Worklist) : Action Bool := do
  let changed : Bool ← perform (.finishPending row.requestId .expired .cancelled none none none false)
  if !changed then return false
  else do
    if surface then
      let _ ← perform (.surfaceCancel row.surfaceRef)
    perform (.appendAudit "approval" "cancelled" "cancelled" row.correlationId (some row.requestId)
      [("reason", strJson reason), ("operator", strJson operator), ("tool", strJson row.tool),
        ("op", strJson row.op)])
    return true

def cancelRows (surface : Bool) (operator reason : String) : List Db.Worklist → Action Nat
  | [] => return 0
  | row :: rows => do
    let changed ← cancelRow surface operator reason row
    let count ← cancelRows surface operator reason rows
    return count + if changed then 1 else 0

def cancelPendingApprovals (callerId : Nat) (surface : Bool) (operator reason : String) :
    Action Nat := do
  let rows : List Db.Worklist ← perform (.pendingApprovalsForCaller callerId)
  cancelRows surface operator reason rows

def revokeCaller (name operator : String) (surface : Bool) : Action Nat := do
  let caller ← requireCaller name
  perform (.revokeCaller name)
  let cancelled ← cancelPendingApprovals caller.id surface operator "caller_revoked"
  recordAdminEvent operator "caller_revoked"
    [("name", strJson name), ("cancelled_approvals", .int cancelled)]
  return cancelled

/-- `grants`: `"tool.op"` to effect. -/
def grants (policy : Policy) : Dict String :=
  ((policy.tools.getD []).flatMap fun t => t.2.map fun o => (s!"{t.1}.{o.1}", o.2)).foldl
    (fun d kv => d.set kv.1 kv.2) []

def grantDelta (before after : Policy) : Json :=
  let old := grants before
  let new := grants after
  let keys := ((old.map Prod.fst ++ new.map Prod.fst).eraseDups).insertionSort (· ≤ ·)
  let side := fun v : Option String => (v.map strJson).getD .null
  .arr (keys.filterMap fun key =>
    if old.get key = new.get key then none
    else some (.obj [(py "operation", strJson key), (py "before", side (old.get key)),
      (py "after", side (new.get key))]))

/-- Replace the grants and keep the enablement of tools and functions. -/
def setPolicy (name : String) (allow review deny : List String) (operator : String) :
    Action Unit := do
  let caller ← requireCaller name
  let before : Policy ← perform (.policyFor caller.id)
  let policy := { buildPolicy allow review deny with
    enabled := before.enabled, disabledFunctions := before.disabledFunctions }
  storePolicy caller.id policy
  recordAdminEvent operator "policy_changed"
    [("name", strJson name), ("grant_delta", grantDelta before policy)]

def setEnabledTools (name : String) (enabled : List String) (operator : String) : Action Unit := do
  let caller ← requireCaller name
  let enabled := enabled.eraseDups
  let prior : Policy ← perform (.policyFor caller.id)
  let tools := (prior.tools.getD []).filter fun t => enabled.contains t.1
  let current : Policy ← perform (.policyFor caller.id)
  let policy ←
    if current.disabledFunctions.isSome then do
      let again : Policy ← perform (.policyFor caller.id)
      pure { tools := some tools, enabled := some enabled,
             disabledFunctions := again.disabledFunctions : Policy }
    else pure { tools := some tools, enabled := if enabled.isEmpty then none else some enabled }
  storePolicy caller.id policy
  recordAdminEvent operator "tools_changed"
    [("name", strJson name), ("enabled", Policy.namesJson enabled)]

def issueToken (H : Hash) (name operator : String) : Action Text := do
  let caller ← requireCaller name
  let token ← newToken H caller.id
  recordAdminEvent operator "token_issued" [("name", strJson name)]
  return token

/-- Add, then revoke the others, so that the caller is never without a token. -/
def rotateToken (H : Hash) (name operator : String) : Action Text := do
  let caller ← requireCaller name
  let token ← newToken H caller.id
  let revoked : Nat ← perform (.revokeTokensForCaller caller.id (some (H.digest token)))
  recordAdminEvent operator "token_rotated" [("name", strJson name), ("revoked", .int revoked)]
  return token

/-- Cancel what is pending for the callers the revocation left without a token. -/
def cancelTokenless (surface : Bool) (operator : String) : List Nat → Action Nat
  | [] => return 0
  | callerId :: rest => do
    let active : Nat ← perform (.activeTokenCount callerId)
    let cancelled ←
      if active = 0 then cancelPendingApprovals callerId surface operator "token_revoked"
      else pure 0
    let others ← cancelTokenless surface operator rest
    return cancelled + others

def revokeToken (pre : Text) (operator : String) (surface : Bool) : Action Nat := do
  if pre.all fun c => Redaction.isSpace (Fin.ofNat _ c.toNat) then return 0
  else
    match ← perform (.callerIdsForTokenPrefix pre) with
    | .error e => raise e
    | .ok callerIds => do
      match ← perform (.revokeTokenByPrefix pre) with
      | .error e => raise e
      | .ok count => do
        if count = 0 then return 0
        else do
          let cancelled ← cancelTokenless surface operator callerIds
          recordAdminEvent operator "token_revoked"
            [("prefix", strJson (String.ofList pre)), ("count", .int count),
              ("cancelled_approvals", .int cancelled)]
          return count

end Toolstack.Broker.Operations
