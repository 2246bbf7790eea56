/-
This file configures execution. There are two loops that run code, a threaded one and a
sequential one; the hybrid mode starts activations in the first and moves hot loops to
the second. Settings come as text and fall back to the defaults.
-/

import ObjectMachine.Text.Natural
import ObjectMachine.Text.Quoted

namespace ObjectMachine

/-- Which loop runs activations. -/
inductive TierMode
  /-- Threaded code only. -/
  | threaded
  /-- The sequential loop only. -/
  | tracing
  /-- Threaded code, moving hot loops to the sequential loop. -/
  | hybrid
deriving DecidableEq, Inhabited

inductive ConfigError
  | invalidTier (text : String)
  | invalidThreshold (text : String)
deriving DecidableEq

def ConfigError.message : ConfigError → String
  | .invalidTier text => "unknown tier " ++ quoted text
  | .invalidThreshold text => "invalid hybrid threshold " ++ quoted text

namespace TierMode

def name : TierMode → String
  | .threaded => "threaded"
  | .tracing => "tracing"
  | .hybrid => "hybrid"

def ofLevel (level : Nat) : Except ConfigError TierMode :=
  match level with
  | 1 => .ok .threaded
  | 2 => .ok .tracing
  | 3 => .ok .hybrid
  | _ => .error (.invalidTier (toString level))

/-- Reads a level of one byte. -/
def parse (text : String) : Except ConfigError TierMode :=
  match parseNatural? 256 text with
  | some level => ofLevel level
  | none => .error (.invalidTier text)

def parseOrDefault (text : String) : TierMode :=
  match parse text with
  | .ok mode => mode
  | .error _ => .threaded

end TierMode

/-- Reads a threshold of four bytes. -/
def parseThreshold (text : String) : Except ConfigError UInt32 :=
  match parseNatural? (1 <<< 32) text with
  | some threshold => .ok (UInt32.ofNat threshold)
  | none => .error (.invalidThreshold text)

structure TierConfig where
  mode : TierMode := .threaded
  /-- The threshold that backward jumps latch at their first decision. -/
  hybridThreshold : UInt32 := 519
  /-- Invocations after which a method gets threaded code. -/
  warmThreshold : UInt32 := 2
  /-- How many activations may be nested. -/
  maxDepth : Nat := 1024
deriving Inhabited

/-- The configuration from two settings, either of which may be absent or wrong. -/
def TierConfig.ofSettings (tier threshold : Option String) : TierConfig :=
  let base : TierConfig := { mode := (tier.map TierMode.parseOrDefault).getD .threaded }
  match threshold.map parseThreshold with
  | some (.ok threshold) => { base with hybridThreshold := threshold }
  | _ => base

end ObjectMachine
