import Toolstack.Broker.Mcp

/-! `client/mcp_server.py`: the stdio adapter of one caller, which keeps the names it advertised. -/

namespace Toolstack.Client

open Broker (Registry)
open Broker.Registry (Listed)
open Broker.Mcp (joined spec)

/-- `_names`: the operation of each advertised name. -/
abbrev Names := Mapping PyStr (String × String)

/-- `_list_tools`: the names are made anew from what the broker lists. -/
def listTools (tools : List Listed) : Names := Mapping.collect joined (tools.map spec)

/-- The operation `_call_tool` makes of a name: an unknown one is looked for in a new list. -/
def resolve (names : Names) (tools : List Listed) (wanted : PyStr) : Names × Option (String × String) :=
  match Mapping.get names wanted with
  | some spec => (names, some spec)
  | none => (listTools tools, Mapping.get (listTools tools) wanted)

end Toolstack.Client
