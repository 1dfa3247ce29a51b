/-
# The consistent hashing load balancer

`policy/consistent_hashing_load_balancer.cpp`: every server has a number of nodes on a ring, a
vector sorted by hash and then by address.  A modification builds the background from the foreground
and turns the two around, so the buffer behind is one modification old.  `SelectServer` walks around
the ring from the first node whose hash is not below the request code.
-/

import Brpc.Lib.SortedKeys
import Mathlib.Data.List.Sort
import Mathlib.Data.Prod.Lex

namespace Brpc.LoadBalancer

open Lib

structure ServerId where
  id : ℕ
  tag : String
  deriving DecidableEq

/-- What a selection returns when there is no server. -/
inductive Errno
  | inval
  | noMem
  | noData
  | hostDown
  deriving DecidableEq

namespace ConsistentHashing

variable {E : Type} [LinearOrder E]

structure Node (E : Type) where
  hash : ℕ
  serverSock : ServerId
  serverAddr : E
  deriving DecidableEq

/-- `operator<` compares the hashes and then the addresses. -/
def Node.key (node : Node E) : ℕ ×ₗ E := toLex (node.hash, node.serverAddr)

/-- `ReplicaPolicy`: the hash of the text that an address and a number are printed to, or the four
parts of its MD5 signature. -/
inductive ReplicaPolicy (E : Type)
  | default (hash : E → ℕ → ℕ)
  | ketama (hash : E → ℕ → ℕ → ℕ)

def pointsPerHash : ℕ := 4

/-- The nodes of a server, as `Build` makes them. -/
def ReplicaPolicy.build (policy : ReplicaPolicy E) (replicas : ℕ) (addr : E) (server : ServerId) :
    List (Node E) :=
  match policy with
  | .default hash => (List.range replicas).map fun i => ⟨hash addr i, server, addr⟩
  | .ketama hash =>
    (List.range (replicas / pointsPerHash)).flatMap fun i =>
      (List.range pointsPerHash).map fun j => ⟨hash addr i j, server, addr⟩

/-- What does not change: the policy, the number of nodes of a server, and where its socket is
connected to. -/
structure Config (E : Type) where
  policy : ReplicaPolicy E
  replicas : ℕ
  remoteSide : ServerId → E

def Config.nodes (c : Config E) (server : ServerId) : List (Node E) :=
  c.policy.build c.replicas (c.remoteSide server) server

/-- `_db_hash_ring` -/
structure Ring (E : Type) where
  fg : List (Node E)
  bg : List (Node E)

namespace Ring

/-- `ModifyWithForeground` of a function that makes the background from the foreground: nothing is
turned around when it returns 0. -/
def modify (r : Ring E) (f : List (Node E) → List (Node E)) : Ring E :=
  if (f r.fg).length = r.fg.length then { r with bg := f r.fg } else ⟨f r.fg, r.fg⟩

/-- `AddBatch` of nodes that have been sorted. -/
def addNodes (r : Ring E) (nodes : List (Node E)) : Ring E :=
  r.modify fun fg => setUnion Node.key fg (nodes.insertionSort fun a b => a.key ≤ b.key)

/-- `AddServer`; `present` says that the socket could be addressed. -/
def addServer (c : Config E) (r : Ring E) (server : ServerId) (present : Bool) : Ring E :=
  if present then r.addNodes (c.nodes server) else r

def addServersInBatch (c : Config E) (r : Ring E) (servers : List (ServerId × Bool)) : Ring E :=
  r.addNodes ((servers.filter (·.2)).flatMap fun s => c.nodes s.1)

def removeServer (r : Ring E) (server : ServerId) : Ring E :=
  r.modify fun fg => fg.filter fun node => node.serverSock ≠ server

def removeServersInBatch (r : Ring E) (servers : List ServerId) : Ring E :=
  r.modify fun fg => fg.filter fun node => node.serverSock ∉ servers

end Ring

/-- The calls that change the ring. -/
inductive Call
  | add (server : ServerId) (present : Bool)
  | addBatch (servers : List (ServerId × Bool))
  | remove (server : ServerId)
  | removeBatch (servers : List ServerId)

def Ring.step (c : Config E) (r : Ring E) : Call → Ring E
  | .add server present => r.addServer c server present
  | .addBatch servers => r.addServersInBatch c servers
  | .remove server => r.removeServer server
  | .removeBatch servers => r.removeServersInBatch servers

def Ring.empty : Ring E := ⟨[], []⟩

/-- What `SelectServer` reads of its `SelectIn`; `read` says that the buffer could be read. -/
structure SelectIn where
  hasRequestCode : Bool
  requestCode : ℕ
  read : Bool
  excluded : ℕ → Bool

def uintMax : ℕ := 4294967295

/-- The nodes in the order in which they are tried: `std::lower_bound`, and around. -/
def Ring.order (r : Ring E) (code : ℕ) : List (Node E) := around (fun node => code ≤ node.hash) r.fg

/-- `SelectServer`, when these sockets can be addressed and are available. -/
def Ring.selectServer (r : Ring E) (available : ℕ → Bool) (i : SelectIn) : Except Errno ServerId :=
  if i.hasRequestCode = false then .error .inval
  else if uintMax < i.requestCode then .error .inval
  else if i.read = false then .error .noMem
  else if r.fg = [] then .error .noData
  else
    match pick (fun node => available node.serverSock.id) (fun node => i.excluded node.serverSock.id)
      (r.order i.requestCode) with
    | some node => .ok node.serverSock
    | none => .error .hostDown

end ConsistentHashing
end Brpc.LoadBalancer
