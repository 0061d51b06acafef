import Iemnet.Data.Chunk

/-!
# Outlets

The output functions that the server objects share.  An outlet call runs whatever
the patch has connected to the outlet before it returns, so the functions take the
effect {lit}`out` of one call as a parameter.
-/

namespace Iemnet

open Pd

/-- The five outlets of a server object. -/
inductive Outlet
  | msgout
  | connectout
  | sockout
  | addrout
  | statusout
deriving DecidableEq, Repr

/-- One outlet call.  {lit}`about` names the connection that the client number in
the message is meant for, if there is one; the patch does not see it. -/
structure Output where
  outlet : Outlet
  selector : String
  argv : List Atom
  about : Option Nat
deriving DecidableEq, Repr

/-- A message that carries no client number. -/
def Output.plain (outlet : Outlet) (selector : String) (argv : List Atom) : Output :=
  ⟨outlet, selector, argv, none⟩

section Functions

variable {σ : Type*} (out : σ → Output → σ)

/-- The four bytes of an address, the high one first. -/
def addressBytes (address : BitVec 32) : List Nat :=
  [(address.extractLsb' 24 8).toNat, (address.extractLsb' 16 8).toNat,
    (address.extractLsb' 8 8).toNat, (address.extractLsb' 0 8).toNat]

/-- {lit}`iemnet__addrout`. -/
def addrout (x : σ) (address : BitVec 32) (port : BitVec 16) : σ :=
  let addr := (addressBytes address ++ [port.toNat]).map fun n => setFloat (n : ℚ)
  let x := out x (.plain .statusout "address" addr)
  out x (.plain .addrout "list" addr)

/-- {lit}`iemnet__numconnout`. -/
def numconnout (x : σ) (numconnections : Nat) : σ :=
  let x := out x (.plain .statusout "connections" [setInt numconnections])
  out x (.plain .connectout "float" [setInt numconnections])

/-- {lit}`iemnet__socket2addressout` on an IPv4 socket; {lit}`address` is what
{lit}`getsockname` delivers. -/
def socket2addressout (abi : Abi) (x : σ) (s : String) (address : Option SockaddrIn) : σ :=
  match address with
  | none => x
  | some a =>
      let alist := setSymbol "IPv4" ::
        (addressBytes (abi.ntohl a.addr) ++ [(abi.ntohs a.port).toNat]).map
          fun n => setFloat (n : ℚ)
      out x (.plain .statusout s alist)

end Functions

/-- The dotted form of an address that is kept as a symbol. -/
def hostname (address : BitVec 32) : String :=
  ".".intercalate ((addressBytes address).map toString)

end Iemnet
