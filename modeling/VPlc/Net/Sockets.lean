import Mathlib.Logic.Function.Basic
import VPlc.Loop.Each
import VPlc.Modbus.Clients

/-!
# The connections of the process

The Modbus, the MC and the XGT server run in one process. Each has a server thread,
a thread for each client and a list `client_fds_` under a lock of its own, but the
descriptors come from one table: what a handler of one server has closed, the next
`accept` of another may return. What a thread does without being interrupted is one
action here, and the lists hold descriptors only. For the Modbus server alone there is
`ModbusServer.Clients`, whose entries are labelled with their connections.

`closes` is the record of all calls of `close`. A handler means its connection; the
locked section of `stop()` goes through the list and means nobody.
-/

namespace VPlc

inductive TcpServer
  | modbus
  | mc
  | xgt
  deriving DecidableEq, Repr

namespace Sockets

/-- A call of `close`, and whose descriptor it took away. -/
structure CloseCall where
  meant : Option Nat
  hit : Option Nat
  deriving DecidableEq, Repr

end Sockets

open Sockets (CloseCall)

structure Sockets where
  /-- `client_fds_`. -/
  clientFds : TcpServer → List Nat
  /-- The server thread is in `accept`. -/
  accepting : TcpServer → Bool
  stopped : TcpServer → Bool
  /-- The connection a descriptor is open for. -/
  owner : Nat → Option Nat
  server : Nat → TcpServer
  phase : Nat → ModbusServer.Phase
  fd : Nat → Nat
  closes : List CloseCall

namespace Sockets

/-- The servers just started. -/
def init : Sockets where
  clientFds _ := []
  accepting _ := true
  stopped _ := false
  owner _ := none
  server _ := .modbus
  phase _ := .fresh
  fd _ := 0
  closes := []

inductive Action
  | accept (srv : TcpServer) (c fd : Nat)
  | push (c : Nat)
  | close (c : Nat)
  | remove (c : Nat)
  | stop (srv : TcpServer)
  deriving DecidableEq, Repr

/-- `close(fd)`. -/
def closeFd (s : Sockets) (meant : Option Nat) (fd : Nat) : Sockets :=
  { s with owner := Function.update s.owner fd none
           closes := s.closes ++ [⟨meant, s.owner fd⟩] }

/-- `accept` in `serverLoop` returns `fd`. -/
def accept (s : Sockets) (srv : TcpServer) (c fd : Nat) : Sockets :=
  { s with accepting := Function.update s.accepting srv false
           owner := Function.update s.owner fd (some c)
           server := Function.update s.server c srv
           phase := Function.update s.phase c .accepted
           fd := Function.update s.fd c fd }

/-- `serverLoop` enters the descriptor and starts the handler. -/
def push (s : Sockets) (c : Nat) : Sockets :=
  { s with accepting := Function.update s.accepting (s.server c) true
           phase := Function.update s.phase c .serving
           clientFds := Function.update s.clientFds (s.server c)
             (s.clientFds (s.server c) ++ [s.fd c]) }

/-- `handleClient` gets to its end and closes the descriptor. -/
def close (s : Sockets) (c : Nat) : Sockets :=
  { s.closeFd (some c) (s.fd c) with phase := Function.update s.phase c .closed }

/-- The Modbus server erases the descriptor wherever it is in the list, the others
where they find it first. -/
def takeOut (srv : TcpServer) (fd : Nat) (fds : List Nat) : List Nat :=
  match srv with
  | .modbus => fds.filter (· ≠ fd)
  | .mc | .xgt => fds.erase fd

/-- `handleClient` takes the descriptor out of the list. -/
def remove (s : Sockets) (c : Nat) : Sockets :=
  { s with phase := Function.update s.phase c .gone
           clientFds := Function.update s.clientFds (s.server c)
             (takeOut (s.server c) (s.fd c) (s.clientFds (s.server c))) }

/-- The locked section of `stop()`. -/
def stop (s : Sockets) (srv : TcpServer) : Sockets :=
  { (s.clientFds srv).foldl (fun s fd => s.closeFd none fd) s with
    clientFds := Function.update s.clientFds srv []
    stopped := Function.update s.stopped srv true }

/-- What has to be so for an action to be taken. -/
def Possible (s : Sockets) : Action → Prop
  | .accept srv c fd =>
      s.accepting srv = true ∧ s.stopped srv = false ∧ s.phase c = .fresh ∧ s.owner fd = none
  | .push c => s.phase c = .accepted
  | .close c => s.phase c = .serving
  | .remove c => s.phase c = .closed
  | .stop srv => s.stopped srv = false

instance (s : Sockets) : (a : Action) → Decidable (s.Possible a)
  | .accept srv c fd => inferInstanceAs (Decidable
      (s.accepting srv = true ∧ s.stopped srv = false ∧ s.phase c = .fresh ∧ s.owner fd = none))
  | .push c => inferInstanceAs (Decidable (s.phase c = .accepted))
  | .close c => inferInstanceAs (Decidable (s.phase c = .serving))
  | .remove c => inferInstanceAs (Decidable (s.phase c = .closed))
  | .stop srv => inferInstanceAs (Decidable (s.stopped srv = false))

def exec (s : Sockets) : Action → Sockets
  | .accept srv c fd => s.accept srv c fd
  | .push c => s.push c
  | .close c => s.close c
  | .remove c => s.remove c
  | .stop srv => s.stop srv

def run (as : List Action) : Sockets := as.foldl exec init

end Sockets

end VPlc
