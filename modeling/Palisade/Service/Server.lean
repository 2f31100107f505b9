import Palisade.Address.Fault
import Palisade.Service.Connection

/-!
# Servers

A server binds an address and serves the connections that reach it. Whether connections reach it
depends on the network, which is an argument here.
-/
namespace Palisade

open Palisade.Text

/-- Why a server does not serve. -/
inductive ServerError where
  /-- The address cannot be bound. -/
  | bind (address : String) (fault : AddressFault)
  /-- The network fails. -/
  | network (reason : String)
  deriving Repr, DecidableEq

/-- The message of an error. -/
def ServerError.message : ServerError → String
  | bind address fault => "failed to bind to " ++ address ++ ": " ++ fault.message
  | network reason => reason

/-- The network between a server and its clients. -/
inductive Network where
  /-- Connections reach the server. -/
  | reachable
  /-- No connection can be made. -/
  | unreachable
  deriving Repr, DecidableEq

/-- A server that is bound. -/
structure Server where
  /-- What it serves. -/
  service : Service
  /-- Whether a proxy in front of it ends the encryption. -/
  tls : Bool

namespace Server

/-- The error of binding an address, if it cannot be bound. -/
def bindError? (address : String) : Option ServerError :=
  (AddressFault.ofAddress? address).map (.bind address)

/-- The event of a server that listens. -/
def listenEvent (s : Server) : Event := ⟨.info, "safeweb listening", [("tls", showBool s.tls)]⟩

/-- The event of a connection that was accepted. -/
def acceptEvent : Event := ⟨.debug, "connection accepted", []⟩

/-- Serves one connection whose bytes arrive in these reads. -/
def serve (s : Server) (network : Network) (reads : List Bytes) (world : World) :
    Except ServerError Conversation :=
  match network with
  | .unreachable => .error (.network "Network is unreachable (os error 101)")
  | .reachable => .ok (Conversation.converse s.service.serve s.tls [] reads
      ((world.record s.listenEvent).record acceptEvent))

end Server

end Palisade
