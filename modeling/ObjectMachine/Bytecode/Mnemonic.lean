/-
This file reads instructions by their names, as someone writes code by hand. An operand is
a slot or a literal first, then a level, or the number of values of a send; what does not
fit a byte is cut to one. A forward jump has a name only, since it is written before its
distance is known.
-/

import ObjectMachine.Bytecode.Assembler

namespace ObjectMachine

/-- The instruction of a name with operands `a` and `b`, each ignored where there is none. -/
def Instruction.ofMnemonic? (name : String) (a b : Nat) : Option Instruction :=
  let first := UInt8.ofNat a
  let second := UInt8.ofNat b
  match name with
  | "halt" => some .halt
  | "dup" => some .dup
  | "dup_second" => some .dupSecond
  | "push_frame" => some (.pushFrame first)
  | "push_inner" => some (.pushInner first second)
  | "push_field" => some (.pushField first second)
  | "push_block" => some (.pushBlock first true)
  | "push_block_no_ctx" => some (.pushBlock first false)
  | "push_constant" => some (.pushConstant first)
  | "push_0" => some .pushZero
  | "push_1" => some .pushOne
  | "push_nil" => some .pushNil
  | "push_global" => some (.pushGlobal first)
  | "pop" => some .pop
  | "pop_frame" => some (.popFrame first)
  | "pop_inner" => some (.popInner first second)
  | "pop_field" => some (.popField first second)
  | "nil_frame" => some (.nilFrame first)
  | "nil_inner" => some (.nilInner first)
  | "send" => some (.send first (.ofCount b))
  | "super_send" => some (.superSend first .ofSelector)
  | "q_super_send" => some (.quickSuperSend first (.ofCount b))
  | "return_local" => some .returnLocal
  | "return_non_local" => some (.returnNonLocal first)
  | "return_self" => some .returnSelf
  | "return_field" => some (.returnField first)
  | "inc" => some .inc
  | "dec" => some .dec
  | "inc_field" => some (.incField first second)
  | "inc_field_push" => some (.incFieldPush first second)
  | "push_local" => some (.pushLocal first second)
  | "push_argument" => some (.pushArgument first second)
  | "pop_local" => some (.popLocal first second)
  | "pop_argument" => some (.popArgument first second)
  | "nil_local" => some (.nilLocal first)
  | _ => none

def ForwardJump.ofMnemonic? (name : String) : Option ForwardJump :=
  match name with
  | "jump" => some .always
  | "jump_on_true_top_nil" => some .onTrueTopNil
  | "jump_on_false_top_nil" => some .onFalseTopNil
  | "jump_on_true_pop" => some .onTruePop
  | "jump_on_false_pop" => some .onFalsePop
  | "jump_if_greater" => some .ifGreater
  | _ => none

end ObjectMachine
