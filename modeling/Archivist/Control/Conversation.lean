import Archivist.Control.Client
import Archivist.Control.Session
set_option autoImplicit false

namespace Archivist

structure Peer (σ : Type) where
  /-- Takes the bytes of a request and answers what it can. -/
  hear : σ → List UInt8 → σ × List ResponseFrame
  /-- Goes on for as long as it takes to answer something. -/
  goOn : σ → σ × List ResponseFrame
  /-- Whether it still takes bytes. -/
  listens : σ → Bool
  /-- Whether it may still answer. -/
  speaks : σ → Bool

structure Conversation (σ : Type) where
  client : Client
  peer : σ
  arriving : Client.Arrivals := []

namespace Conversation

variable {σ : Type}

/-- Sends a request; its number is used up even if it cannot be sent. -/
def begin (p : Peer σ) (c : Conversation σ) (request : Request) :
    Conversation σ × Except TransferError UInt64 :=
  match c.client.send request with
  | (client, _, .error e) => ({ c with client }, .error e)
  | (client, id, .ok bytes) =>
    if p.listens c.peer then
      let (peer, replies) := p.hear c.peer bytes
      ({ client, peer, arriving := c.arriving ++ replies.map .ok }, .ok id)
    else ({ c with client }, .error client.unavailable)

def await (p : Peer σ) (c : Conversation σ) (id : UInt64) :
    Conversation σ × Option (Except TransferError Response) :=
  match c.client.reply id c.arriving with
  | (client, some r, arriving) => ({ c with client, arriving }, some r)
  | (client, none, arriving) =>
    if p.speaks c.peer then
      let (peer, replies) := p.goOn c.peer
      match client.reply id (arriving ++ replies.map .ok) with
      | (client, some r, arriving) => ({ client, peer, arriving }, some r)
      | (client, none, arriving) =>
        ({ client, peer, arriving },
          if p.speaks peer then none else some (.error client.unavailable))
    else ({ c with client, arriving }, some (.error client.unavailable))

def call (p : Peer σ) (c : Conversation σ) (request : Request) :
    Conversation σ × Option (Except TransferError Response) :=
  match c.begin p request with
  | (c, .error e) => (c, some (.error e))
  | (c, .ok id) => c.await p id

def finish (p : Peer σ) (c : Conversation σ) (id : UInt64) :
    Conversation σ × Option (Except TransferError TransferStatus) :=
  match c.await p id with
  | (c, none) => (c, none)
  | (c, some (.error e)) => (c, some (.error e))
  | (c, some (.ok r)) => (c, some (c.client.conclude r))

def transfer (p : Peer σ) (c : Conversation σ) (request : Request) :
    Conversation σ × Option (Except TransferError TransferStatus) :=
  match c.begin p request with
  | (c, .error e) => (c, some (.error e))
  | (c, .ok id) => c.finish p id

end Conversation

def hearFrame {σ : Type} (receive : σ → RequestFrame → σ × List ResponseFrame) (s : σ)
    (bytes : List UInt8) : σ × List ResponseFrame :=
  match Wire.readFrame Wire.getRequestFrame bytes with
  | (.ok (some f), _) => receive s f
  | _ => (s, [])

def Server.peer {σ : Type} (w : Worker σ) : Peer (Server σ) where
  hear := hearFrame (Server.receive w)
  goOn := Server.settle w w.expire
  listens s := s.ended.isNone
  speaks s := s.ended.isNone

def Session.peer (service : NodeService) : Peer Session where
  hear := hearFrame (Session.receive service)
  goOn s :=
    match s.settle with
    | (s, []) => s.expire
    | done => done
  listens := Session.isOpen
  speaks := Session.isOpen

/-- Somebody who has said everything already and keeps what is said to it, unless it is gone. -/
structure Recorder where
  gone : Bool := false
  heard : List UInt8 := []

def Recorder.peer : Peer Recorder where
  hear r bytes := ({ r with heard := r.heard ++ bytes }, [])
  goOn r := (r, [])
  listens r := !r.gone
  speaks _ := false

end Archivist
