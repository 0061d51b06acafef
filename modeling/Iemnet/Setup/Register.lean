import Iemnet.Foundations.LinkedList
import Iemnet.Foundations.TransitionSystem

/-!
# Registration of the object classes

{lit}`iemnet__register` of iemnet.c with its list of names, and the setup functions, which
ask it whether to create their class.  iemnet_setup.c sets up all classes at once.

The function {lit}`gensym` of Pd is a parameter.

Main definitions:

- {lit}`Names.nametaken`, {lit}`Names.register`: the functions of iemnet.c.
- {lit}`Process.setup`: what the setup functions have in common.
- {lit}`setupMachine`: any sequence of registrations.
-/

namespace Iemnet

open Foundations
open Foundations.LinkedList

/-! ## Names -/

/-- What {lit}`iemnet__register` posts. -/
inductive Post
  | banner
  | loaded (name : String)
deriving DecidableEq, Repr

/-- The static variables {lit}`namelist` and {lit}`firsttime`, the memory of the nodes, and
the history. -/
structure Names (σ : Type) where
  heap : Heap Nat σ
  namelist : Option Nat
  firsttime : Bool
  /-- The nodes allocated so far. -/
  made : Nat
  posted : List Post

/-- No name has been registered. -/
def Names.empty (σ : Type) : Names σ :=
  ⟨fun _ => none, none, true, 0, []⟩

/-- How the loop of {lit}`iemnet__nametaken` ends. -/
inductive Search
  | taken
  | new (lastname : Option Nat)
deriving DecidableEq, Repr

section Register

variable {σ : Type} [DecidableEq σ]

/-- The loop of {lit}`iemnet__nametaken` from {lit}`curname` on, for {lit}`fuel` nodes at
most. -/
def nametakenFrom (heap : Heap Nat σ) (name : σ) : Nat → Option Nat → Option Nat → Option Search
  | _, none, lastname => some (.new lastname)
  | 0, some _, _ => none
  | fuel + 1, some curname, _ =>
      (heap curname).bind fun node =>
        if name = node.data then some .taken
        else nametakenFrom heap name fuel node.next (some curname)

namespace Names

/-- The end of {lit}`iemnet__nametaken`: a new node, which {lit}`malloc` puts at
{lit}`addr`, goes behind the last one. -/
def append (x : Names σ) (name : σ) (lastname : Option Nat) (addr : Nat) : Option (Names σ) :=
  if (x.heap addr).isNone then
    let x := { x with
      heap := Function.update x.heap addr (some ⟨none, name⟩)
      made := x.made + 1 }
    match lastname with
    | none => some { x with namelist := some addr }
    | some last =>
        (x.heap last).map fun node =>
          { x with heap := Function.update x.heap last (some ⟨some addr, node.data⟩) }
  else none

/-- {lit}`iemnet__nametaken`.  A loop over more nodes than have been made would not end. -/
def nametaken (gensym : String → σ) (x : Names σ) (namestring : String) (addr : Nat) :
    Option (Names σ × Int) :=
  let name := gensym namestring
  (nametakenFrom x.heap name x.made x.namelist x.namelist).bind fun
    | .taken => some (x, 1)
    | .new lastname => (x.append name lastname addr).map fun x => (x, 0)

/-- {lit}`iemnet__register`. -/
def register (gensym : String → σ) (x : Names σ) (name : String) (addr : Nat) :
    Option (Names σ × Int) :=
  (x.nametaken gensym name addr).map fun (x, taken) =>
    if taken ≠ 0 then (x, 1)
    else
      let x := if x.firsttime then { x with posted := x.posted ++ [.banner] } else x
      ({ x with posted := x.posted ++ [.loaded name], firsttime := false }, 1)

end Names

end Register

/-! ## Setup -/

/-- The classes of the library. -/
inductive ObjectClass
  | tcpclient | tcpreceive | tcpsend | tcpserver
  | udpclient | udpreceive | udpsend | udpserver
deriving DecidableEq, Repr

/-- {lit}`objName`. -/
def ObjectClass.objName : ObjectClass → String
  | tcpclient => "tcpclient"
  | tcpreceive => "tcpreceive"
  | tcpsend => "tcpsend"
  | tcpserver => "tcpserver"
  | udpclient => "udpclient"
  | udpreceive => "udpreceive"
  | udpsend => "udpsend"
  | udpserver => "udpserver"

/-- The names, the results of {lit}`iemnet__register`, and the classes created so far. -/
structure Process (σ : Type) where
  names : Names σ
  results : List Int
  classes : List ObjectClass

namespace Process

/-- Nothing has been loaded. -/
def start (σ : Type) : Process σ :=
  ⟨.empty σ, [], []⟩

variable {σ : Type} [DecidableEq σ] (gensym : String → σ)

/-- A call of {lit}`iemnet__register`. -/
def register (x : Process σ) (name : String) (addr : Nat) : Option (Process σ) :=
  (x.names.register gensym name addr).map fun (names, result) =>
    { x with names := names, results := x.results ++ [result] }

/-- The setup function of a class. -/
def setup (c : ObjectClass) (x : Process σ) (addr : Nat) : Option (Process σ) :=
  (x.names.register gensym c.objName addr).map fun (names, result) =>
    let x := { x with names := names, results := x.results ++ [result] }
    if result = 0 then x else { x with classes := x.classes ++ [c] }

/-- {lit}`tcpclient_setup`. -/
def tcpclientSetup (x : Process σ) (addr : Nat) : Option (Process σ) :=
  x.setup gensym .tcpclient addr

/-- {lit}`tcpreceive_setup`. -/
def tcpreceiveSetup (x : Process σ) (addr : Nat) : Option (Process σ) :=
  x.setup gensym .tcpreceive addr

/-- {lit}`tcpsend_setup`. -/
def tcpsendSetup (x : Process σ) (addr : Nat) : Option (Process σ) :=
  x.setup gensym .tcpsend addr

/-- {lit}`tcpserver_setup`. -/
def tcpserverSetup (x : Process σ) (addr : Nat) : Option (Process σ) :=
  x.setup gensym .tcpserver addr

/-- {lit}`udpclient_setup`. -/
def udpclientSetup (x : Process σ) (addr : Nat) : Option (Process σ) :=
  x.setup gensym .udpclient addr

/-- {lit}`udpreceive_setup`. -/
def udpreceiveSetup (x : Process σ) (addr : Nat) : Option (Process σ) :=
  x.setup gensym .udpreceive addr

/-- {lit}`udpsend_setup`. -/
def udpsendSetup (x : Process σ) (addr : Nat) : Option (Process σ) :=
  x.setup gensym .udpsend addr

/-- {lit}`udpserver_setup`. -/
def udpserverSetup (x : Process σ) (addr : Nat) : Option (Process σ) :=
  x.setup gensym .udpserver addr

/-- {lit}`iemnet_setup`; {lit}`addr` is where the node of each class is put. -/
def iemnetSetup (x : Process σ) (addr : ObjectClass → Nat) : Option (Process σ) := do
  let x ← x.tcpclientSetup gensym (addr .tcpclient)
  let x ← x.tcpreceiveSetup gensym (addr .tcpreceive)
  let x ← x.tcpsendSetup gensym (addr .tcpsend)
  let x ← x.tcpserverSetup gensym (addr .tcpserver)
  let x ← x.udpclientSetup gensym (addr .udpclient)
  let x ← x.udpreceiveSetup gensym (addr .udpreceive)
  let x ← x.udpsendSetup gensym (addr .udpsend)
  x.udpserverSetup gensym (addr .udpserver)

end Process

/-- A call of {lit}`iemnet__register`, from a setup function or elsewhere. -/
inductive SetupCall
  | register (name : String) (addr : Nat)
  | setup (c : ObjectClass) (addr : Nat)

namespace SetupCall

/-- The name that is registered. -/
def name : SetupCall → String
  | register name _ => name
  | setup c _ => c.objName

/-- Where {lit}`malloc` puts a new node. -/
def addr : SetupCall → Nat
  | register _ addr => addr
  | setup _ addr => addr

/-- The class whose setup function calls. -/
def class? : SetupCall → Option ObjectClass
  | register _ _ => none
  | setup c _ => some c

end SetupCall

/-- The process that loads the library, as a whole or class by class. -/
def setupMachine {σ : Type} [DecidableEq σ] (gensym : String → σ) :
    Machine (Process σ) SetupCall where
  init x := x = .start σ
  step x
    | .register name addr => x.register gensym name addr
    | .setup c addr => x.setup gensym c addr

end Iemnet
