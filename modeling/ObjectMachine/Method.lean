/-
This file gives methods. The code of a method, its literals and its scope never change;
what execution learns about it is kept apart, per bytecode offset: the instruction that
replaces the encoded one once it is resolved, the inline cache of a send, the class of
the receiver last seen, and the count of a backward jump.
-/

import ObjectMachine.BackEdge
import ObjectMachine.Bytecode.Decode
import ObjectMachine.Scope
import ObjectMachine.Value

namespace ObjectMachine

/-- A compiled method or block body. -/
structure Method where
  signature : Symbol
  code : Array UInt8
  literals : Array Value
  scope : Scope
  maxStack : Nat
  /-- Whether non-local returns aimed at its activations end there. -/
  catchesReturns : Bool
  isBlock : Bool
deriving Inhabited

namespace Method

def literal? (method : Method) (index : UInt8) : Option Value :=
  method.literals[index.toNat]?

/-- How many values an activation takes, the receiver included. -/
def argumentCount (method : Method) : Nat := method.scope.own.arguments.length + 1

def frameSize (method : Method) : Nat := method.scope.own.frameSize

def innerSize (method : Method) : Nat := method.scope.own.innerSize

end Method

/-! ### What execution learns -/

/-- A receiver shape that a send has met, and where the send went. -/
structure CacheEntry where
  shape : ShapeId
  target : Invokable
deriving DecidableEq

/-- The inline cache of one call site. -/
structure InlineCache where
  primary : Option CacheEntry := none
  secondary : Option CacheEntry := none
deriving DecidableEq, Inhabited

/-- What is known about the instruction at one offset. -/
structure Site where
  /-- The instruction to run in place of the encoded one. -/
  patch : Option Instruction := none
  cache : InlineCache := {}
  backEdge : BackEdge := {}
  /-- The class of the receiver last seen by a send. -/
  receiverClass : Option ClassId := none
deriving DecidableEq, Inhabited

/-- One step of threaded code: an instruction and where execution falls through to. -/
structure ThreadedNode where
  instruction : Instruction
  next : Nat
deriving DecidableEq, Inhabited

/-- Threaded code of one method by offset; offsets never reached have no node. -/
structure ThreadedProgram where
  nodes : Array (Option ThreadedNode)
deriving DecidableEq, Inhabited

namespace ThreadedProgram

def node? (program : ThreadedProgram) (offset : Nat) : Option ThreadedNode :=
  program.nodes[offset]?.join

def length (program : ThreadedProgram) : Nat := program.nodes.countP Option.isSome

end ThreadedProgram

/-- The part of a method that changes. -/
structure MethodState where
  /-- The class the method is installed in. -/
  holder : Option ClassId := none
  invocations : UInt32 := 0
  sites : Array Site
  /-- The method's threaded code, once it has been made. -/
  threaded : Option ThreadedProgram := none
deriving Inhabited

namespace MethodState

def initial (method : Method) : MethodState where
  sites := Array.replicate method.code.size {}

def site (state : MethodState) (offset : Nat) : Site := state.sites.getD offset {}

def modifySite (state : MethodState) (offset : Nat) (change : Site → Site) : MethodState :=
  { state with sites := state.sites.modify offset change }

/-- Counts one activation; the count stops at its largest value. -/
def countInvocation (state : MethodState) : MethodState :=
  { state with
    invocations :=
      if state.invocations = 0xffffffff then state.invocations else state.invocations + 1 }

def resetBackEdges (state : MethodState) : MethodState :=
  { state with
    sites := state.sites.map fun site => { site with backEdge := site.backEdge.reset } }

end MethodState

/--
The instruction to run at `offset`: the patch where there is one. The length is always
that of the encoded instruction.
-/
def MethodState.instructionAt (state : MethodState) (method : Method) (offset : Nat) :
    Except DecodeError (Instruction × Nat) :=
  (decodeAt method.code offset).map fun (encoded, length) =>
    ((state.site offset).patch.getD encoded, length)

end ObjectMachine
