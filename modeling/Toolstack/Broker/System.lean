import Toolstack.Broker.Gateway
import Toolstack.Admin.CallerSettings

/-! The broker as a system: any number of broker contexts and operator processes over one
database, catalogs that are reloaded under them, and offline maintenance. -/

namespace Toolstack.Broker

open Interleave (System)

/-- One invocation of the broker or of an operator tool. -/
inductive Job
  | submit (ctx : Context) (caller : Caller) (tool op : String) (arguments : Json)
      (correlationId : Text) (reason key : Json)
  | resolve (ctx : Context) (requestId : Nat) (now : Option Time) (caller : Option Caller)
  | sweep (ctx : Context) (now : Option Time)
  | handle (ctx : Context) (headers : Headers) (request : Gateway.Request)
  | createCaller (name : String) (allow review deny : List String) (operator : String)
  | issueToken (name operator : String)
  | rotateToken (name operator : String)
  | revokeToken (pre : Text) (operator : String) (surface : Bool)
  | revokeCaller (name operator : String) (surface : Bool)
  | setPolicy (name : String) (allow review deny : List String) (operator : String)
  | setEnabledTools (name : String) (enabled : List String) (operator : String)
  | storePolicy (callerId : Nat) (policy : Policy)
  | compareAndSetPolicy (callerId : Nat) (before after : Policy) (operator : String)
  | applySettings (name : String) (catalog : Except Exn CallerSettings.Catalog)
      (data : CallerSettings.Draft) (operator : String)
  | saveCallerTools (name : String) (available selected : List String) (operator : String)
  | prunePayloads (now : Option Time)

inductive Reply
  | outcome (o : Outcome)
  | response (r : Response)
  | count (n : Nat)
  | token (t : Text)
  | changed (b : Bool)
  | done

def program (H : Hash) : Job → Action Reply
  | .submit ctx caller tool op arguments corr reason key =>
    Reply.outcome <$> Lifecycle.submit ctx caller tool op arguments corr reason key
  | .resolve ctx r now caller => Reply.outcome <$> Lifecycle.resolveRequest ctx r now caller
  | .sweep ctx now => Reply.count <$> Lifecycle.sweepExpired ctx now
  | .handle ctx headers request => Reply.response <$> Gateway.handle H ctx headers request
  | .createCaller name allow review deny operator =>
    Reply.token <$> Operations.createCaller H name allow review deny operator
  | .issueToken name operator => Reply.token <$> Operations.issueToken H name operator
  | .rotateToken name operator => Reply.token <$> Operations.rotateToken H name operator
  | .revokeToken pre operator surface =>
    Reply.count <$> Operations.revokeToken pre operator surface
  | .revokeCaller name operator surface =>
    Reply.count <$> Operations.revokeCaller name operator surface
  | .setPolicy name allow review deny operator => do
    Operations.setPolicy name allow review deny operator
    return .done
  | .setEnabledTools name enabled operator => do
    Operations.setEnabledTools name enabled operator
    return .done
  | .storePolicy callerId policy => do
    Operations.storePolicy callerId policy
    return .done
  | .compareAndSetPolicy callerId before after operator =>
    Reply.changed <$> perform (.compareAndSetPolicy callerId before after operator)
  | .applySettings name catalog data operator => do
    let _ ← CallerSettings.apply H name catalog data operator
    return .done
  | .saveCallerTools name available selected operator => do
    CallerSettings.saveCallerTools name available selected operator
    return .done
  | .prunePayloads now => Reply.count <$> perform (.prunePayloads now)

/-- What may happen beside the running programs. -/
inductive EnvMove
  | reload (broker : Nat) (registry : Registry)
  | edit (disk : Disk)
  | backup

/-- What an operator does with every writer stopped. -/
inductive OfflineMove
  | reconcile (now : Time)
  | restore (backup : Nat) (now : Time) (uuid : Text)

def EnvMove.apply : EnvMove → World → World
  | .reload broker registry, w =>
    { w with registry := fun b => if b = broker then registry else w.registry b }
  | .edit disk, w => { w with disk := disk }
  | .backup, w => { w with backups := w.backups ++ [(w.db, w.log)] }

def OfflineMove.apply : OfflineMove → World → Option World
  | .reconcile now, w => some { w with db := w.db.reconcileOffline now }
  | .restore n now uuid, w =>
    w.backups[n]?.map fun b => { w with db := b.1.sanitize now uuid, log := b.2 }

abbrev Config := Interleave.Config Op Op.Ret Exn Reply Job World

abbrev Move := Interleave.Move Job Oracle EnvMove OfflineMove

def broker (H : Hash) : System Op Op.Ret Exn Reply Job World Oracle EnvMove OfflineMove where
  exec := World.exec H
  program := program H
  env := EnvMove.apply
  offline := OfflineMove.apply

/-- A new database, before anything has happened. -/
def World.initial (uuid : Text) : World := { db := { installationUuid := uuid } }

/-- Configurations some run of the broker reaches from a new database. -/
def Reachable (H : Hash) (c : Config) : Prop :=
  ∃ uuid, (broker H).Reachable (World.initial uuid) c

end Toolstack.Broker
