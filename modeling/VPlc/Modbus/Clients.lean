import Mathlib.Logic.Function.Basic

/-!
# The connections of the Modbus server

The server thread, one thread for each client and the thread that calls `stop`
share the list `client_fds_`, under a lock, and the descriptors of the process,
which are the operating system's. What any of them does without being interrupted
is one action here.

A connection is a number. An entry of the list is the descriptor; the number
beside it says whom it was entered for, which the code does not know and does not
ask. `closes` is the record of all calls of `close`, each with the connection it
was meant for and the one whose descriptor it took away.
-/

namespace VPlc

namespace ModbusServer

/-- Where the handler of a connection stands. -/
inductive Phase
  | fresh
  | accepted
  | serving
  | closed
  | gone
  deriving DecidableEq, Repr

structure Entry where
  fd : Nat
  conn : Nat
  deriving DecidableEq, Repr

/-- A call of `close`. -/
structure CloseCall where
  meant : Nat
  hit : Option Nat
  deriving DecidableEq, Repr

structure Clients where
  /-- `client_fds_`. -/
  clientFds : List Entry
  /-- The server thread is in `accept`. -/
  accepting : Bool
  /-- The connection a descriptor is open for. -/
  owner : Nat → Option Nat
  phase : Nat → Phase
  fd : Nat → Nat
  stopped : Bool
  closes : List CloseCall

namespace Clients

/-- The server just started. -/
def init : Clients where
  clientFds := []
  accepting := true
  owner _ := none
  phase _ := .fresh
  fd _ := 0
  stopped := false
  closes := []

inductive Action
  | accept (c fd : Nat)
  | push (c : Nat)
  | close (c : Nat)
  | remove (c : Nat)
  | stop
  deriving DecidableEq, Repr

/-- `close(fd)`, by someone who means connection `c`. -/
def closeFd (s : Clients) (c fd : Nat) : Clients :=
  { s with owner := Function.update s.owner fd none
           closes := s.closes ++ [⟨c, s.owner fd⟩] }

/-- `accept` in `serverLoop` returns `fd`. -/
def accept (s : Clients) (c fd : Nat) : Clients :=
  { s with accepting := false
           owner := Function.update s.owner fd (some c)
           phase := Function.update s.phase c .accepted
           fd := Function.update s.fd c fd }

/-- `serverLoop` enters the connection and starts its handler. -/
def push (s : Clients) (c : Nat) : Clients :=
  { s with accepting := true
           phase := Function.update s.phase c .serving
           clientFds := s.clientFds ++ [⟨s.fd c, c⟩] }

/-- `handleClient` gets to its end and closes the descriptor. -/
def close (s : Clients) (c : Nat) : Clients :=
  { s.closeFd c (s.fd c) with phase := Function.update s.phase c .closed }

/-- `handleClient` takes the descriptor out of the list, everywhere. -/
def remove (s : Clients) (c : Nat) : Clients :=
  { s with phase := Function.update s.phase c .gone
           clientFds := s.clientFds.filter (·.fd ≠ s.fd c) }

/-- The locked section of `stop()`. -/
def stop (s : Clients) : Clients :=
  { s.clientFds.foldl (fun s e => s.closeFd e.conn e.fd) s with
    clientFds := []
    stopped := true }

/-- One action, where it is possible. -/
def step (s : Clients) : Action → Option Clients
  | .accept c fd =>
      if s.accepting ∧ s.stopped = false ∧ s.phase c = .fresh ∧ s.owner fd = none then
        some (s.accept c fd)
      else none
  | .push c => if s.phase c = .accepted then some (s.push c) else none
  | .close c => if s.phase c = .serving then some (s.close c) else none
  | .remove c => if s.phase c = .closed then some (s.remove c) else none
  | .stop => if s.stopped = false then some s.stop else none

def run (s : Clients) (as : List Action) : Option Clients := as.foldlM step s

end Clients

end ModbusServer

end VPlc
