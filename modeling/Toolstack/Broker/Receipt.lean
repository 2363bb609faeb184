import Toolstack.Broker.System

/-! One request as everybody sees it: its row, its approvals, and what has been done about it.
A receipt is the part of the world a request lives in; the log supplies its history. -/

namespace Toolstack.Broker

open Json (canonical normal)

/-- The arguments of the reservation a row was created by. -/
structure Reservation where
  caller : Caller
  tool : String
  op : String
  arguments : Json
  reason : Json
  generation : Text
  key : Json

/-- What a call did about one request. -/
inductive Act
  | reserved (res : Reservation)
  | carded (card : Card)
  | opened
  | claimed (byApproval : Bool)
  | executed (toolOp : ToolOp) (arguments : Json)
  | sent (request : HttpRequest) (exchange : Exchange)

structure Event where
  thread : Nat
  act : Act

/-- Which request a call did something about, and what. -/
def Call.act : Call → Option (Nat × Act)
  | ⟨_, .reserveAction caller _ tool op arguments reason generation key, .ok (row, true, _)⟩ =>
    some (row.id, .reserved ⟨caller, tool, op, arguments, reason, generation, key⟩)
  | ⟨_, .surfaceOpen card, _⟩ => some (card.requestId, .carded card)
  | ⟨_, .createApproval r _ _ _, .ok _⟩ => some (r, .opened)
  | ⟨_, .claimReceived r _ _ _, true⟩ => some (r, .claimed false)
  | ⟨_, .claimApproval r _ _ _ _, true⟩ => some (r, .claimed true)
  | ⟨_, .execute toolOp arguments r _, _⟩ => some (r, .executed toolOp arguments)
  | ⟨_, .http request, exchange⟩ => request.message.actionFor.map fun r => (r, .sent request exchange)
  | _ => none

def Call.about (r : Nat) (c : Call) : Option Event :=
  match c.act with
  | some (r', act) => if r' = r then some ⟨c.thread, act⟩ else none
  | none => none

/-- Newest first, as in the log. -/
def eventsOf (r : Nat) (log : List Call) : List Event := log.filterMap (Call.about r)

structure Receipt where
  row : Option Row
  approvals : List ApprovalRow
  events : List Event

def receiptOf (r : Nat) (db : Db) (log : List Call) : Receipt where
  row := db.requests.get? r
  approvals := db.approvals.select fun a => a.requestId = r
  events := eventsOf r log

def World.receipt (w : World) (r : Nat) : Receipt := receiptOf r w.db w.log

/-! ## Who works on a request -/

namespace Act

def isReserved : Act → Bool
  | reserved _ => true
  | _ => false

def isClaimed : Act → Bool
  | claimed _ => true
  | _ => false

/-- The acts that follow a won claim. -/
def isEffect : Act → Bool
  | claimed _ | executed _ _ | sent _ _ => true
  | _ => false

def takes (a : Act) : Bool := a.isReserved || a.isClaimed

end Act

/-- The thread that last reserved or claimed the request. -/
def holder (events : List Event) : Option Nat :=
  (events.find? fun e => e.act.takes).map (·.thread)

/-- Statuses in which exactly one thread may advance the request. -/
def Status.held : Status → Bool
  | received | executing => true
  | _ => false

def Receipt.Owned (i : Nat) (R : Receipt) : Prop :=
  (∃ row, R.row = some row ∧ row.status.held) ∧ holder R.events = some i

theorem Receipt.Owned.unique {i j : Nat} {R : Receipt} (hi : R.Owned i) (hj : R.Owned j) : i = j :=
  Option.some.inj (hi.2.symm.trans hj.2)

/-! ## How far the execution of a request has come -/

def effects (events : List Event) : List Event := events.filter fun e => e.act.isEffect

inductive Stage
  | idle
  | claimed (i : Nat) (byApproval : Bool)
  | executed (i : Nat) (byApproval : Bool) (toolOp : ToolOp) (arguments : Json)
  | sent (i : Nat) (byApproval : Bool) (toolOp : ToolOp) (arguments : Json)
      (request : HttpRequest) (exchange : Exchange)

namespace Stage

/-- One claim, one execution and one action message, all of one thread, in this order. -/
def events : Stage → List Event
  | idle => []
  | claimed i b => [⟨i, .claimed b⟩]
  | executed i b t a => [⟨i, .executed t a⟩, ⟨i, .claimed b⟩]
  | sent i b t a m x => [⟨i, .sent m x⟩, ⟨i, .executed t a⟩, ⟨i, .claimed b⟩]

def claimedBy : Stage → Option Nat
  | idle => none
  | claimed i _ | executed i _ _ _ | sent i _ _ _ _ _ => some i

/-- The tool was sent the action and may have received it. -/
def delivered : Stage → Bool
  | sent _ _ _ _ _ x => x.delivered
  | _ => false

end Stage

/-- The message one exchange brought, where it brought one. -/
def messageOf (n : Int) : Exchange → Option (List (PyStr × Json))
  | .answered a =>
    if a.eventStream then (Runtime.readSse a n).toOption
    else match a.body with
      | .ok (.ok (.obj kvs)) => some kvs
      | _ => none
  | _ => none

/-- The result an answer to an action message carries. -/
def resultOf (message : ToolMessage) (exchange : Exchange) : Option Json :=
  match message, exchange with
  | .action .., .answered a | .sendRequest .., .answered a =>
    match a.body with
    | .ok (.ok v) => some v
    | _ => none
  | .toolsCall .., exchange =>
    (messageOf 2 exchange).map fun kvs => (Json.find? kvs (py "result")).getD .null
  | _, _ => none

/-- What a status says about the effects of a request. -/
def Stage.Fits (st : Stage) (row : Row) : Prop :=
  match row.status with
  | .executing => st ≠ .idle
  | .completed => ∃ i b t a m x, st = .sent i b t a m x ∧ row.resultJson.isSome ∧
      resultOf m.message x = row.resultJson
  | .failed => st.delivered = false
  | .unknown | .running => True
  | .resultExpired => ∃ i b t a m x, st = .sent i b t a m x
  | _ => st = .idle

/-! ## Sound receipts -/

/-- The row is what its reservation asked for. -/
structure Reserved (H : Hash) (res : Reservation) (row : Row) : Prop where
  callerId : row.callerId = res.caller.id
  tool : row.tool = res.tool
  op : row.op = res.op
  generation : row.operationGeneration = some res.generation
  key : Db.validateIdempotencyKey res.key = .ok row.idempotencyKey
  payload : ∃ text, canonical (Db.payload res.tool res.op res.arguments res.reason) = some text ∧
    row.payloadDigest = some (H.digest text)
  bound : ∃ fresh text, canonical (ApprovalSummary.action res.caller.id res.tool res.op
      res.generation res.arguments res.reason .null fresh) = some text ∧
    row.requestDigest = some (H.digest text)
  arguments : row.status.terminal = false → row.argumentsJson = some (normal res.arguments)

/-- What was handed to the runtime is what was reserved. -/
structure Handed (res : Reservation) (toolOp : ToolOp) (arguments : Json) : Prop where
  tool : toolOp.tool = res.tool
  op : toolOp.op = res.op
  generation : toolOp.generation = res.generation
  arguments : canonical arguments = canonical res.arguments

structure RowSound (H : Hash) (row : Row) (R : Receipt) : Prop where
  reserved : ∃ front i res, R.events = front ++ [⟨i, .reserved res⟩] ∧
    (∀ e ∈ front, e.act.isReserved = false) ∧ Reserved H res row ∧
    ∀ e ∈ front, ∀ t a, e.act = .executed t a → Handed res t a
  cleared : row.status.terminal → row.argumentsJson = none ∧ row.actionJson = none
  result : row.resultJson.isSome → row.status = .completed
  current : row.status ≠ .running
  single : R.approvals.length ≤ 1
  stage : ∃ st : Stage, effects R.events = st.events ∧ st.Fits row
  approved : ∀ a ∈ R.approvals, a.status = .approved → ∃ e ∈ R.events, e.act = .claimed true

/-- A request that was never reserved has no approval and no history. -/
def Receipt.Sound (H : Hash) (R : Receipt) : Prop :=
  match R.row with
  | none => R.approvals = [] ∧ R.events = []
  | some row => RowSound H row R

end Toolstack.Broker
