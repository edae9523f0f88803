import Wordcode.Word

/-! # Opcodes

The first word of an instruction is its opcode, an assignment's first operand its l-value operation.
Both are numbered without gaps from zero, in the order of their lists. How many operand words follow
an opcode, and what they are, depends only on its shape. -/

namespace Wordcode

/-- What an instruction does. -/
inductive Opcode
  | pushInt | pushFlt | pushStr | pushNil | pushFun | pushVar | pushVarRef | lvalVar | pushIdxI
  | pushIdxV | lvalIdxI | lvalIdxV | pushFld | pushFldM | lvalFld | pushLoc | lvalLoc | bCall
  | call | callMulti | callV | callVCond | funStart | funEnd | funMulti | ret | newVec | pop
  | popRef | dup | cont1 | iFor | sFor | vFor | iForRef | sForRef | vForRef | jump | jumpFail
  | jumpFailR | jumpFailN | jumpNoFail | jumpNoFailR | jumpFailRef | jumpFailRRef | jumpFailNRef
  | jumpNoFailRef | jumpNoFailRRef | iAdd | iSub | iMul | iDiv | iMod | iLt | iGt | iLe | iGe
  | iEq | iNe | fAdd | fSub | fMul | fDiv | fLt | fGt | fLe | fGe | fEq | fNe | sAdd | sEq | sNe
  | uMinus | logNot | logNotRef | i2F | a2S | e2B | e2BRef | isType | coro | coCl | coEnd
  | logRead | logReadRef | exit | abort
  deriving DecidableEq, Repr

/-- How an assignment changes its target: plain stores, compound assignments and increments, each in
a form that drops the value and a form (`R`) that keeps it. -/
inductive LvalOp
  | write | writeR | writeRef | writeRRef | iAdd | iAddR | iSub | iSubR | iMul | iMulR | iDiv
  | iDivR | iMod | iModR | fAdd | fAddR | fSub | fSubR | fMul | fMulR | fDiv | fDivR | sAdd
  | sAddR | iPP | iPPR | iMM | iMMR | iPPP | iPPPR | iMMP | iMMPR | fPP | fPPR | fMM | fMMR
  | fPPP | fPPPR | fMMP | fMMPR
  deriving DecidableEq, Repr

/-- The operands that follow an opcode. -/
inductive Shape
  | plain
  | immediate
  | ret
  | callValue
  /-- If `listed`, the argument types follow the operands. -/
  | call (listed : Bool)
  | newVector
  | callNative
  /-- If it `assigns`, the first operand is an l-value operation. -/
  | ident (assigns : Bool)
  /-- If it `assigns`, the first operand is an l-value operation. -/
  | slot (assigns : Bool)
  | element
  | float
  | text
  | prologue
  | coroutine
  | dispatch
  deriving DecidableEq, Repr

namespace Opcode

/-- All opcodes in the order of their words. -/
def all : List Opcode :=
  [.pushInt, .pushFlt, .pushStr, .pushNil, .pushFun, .pushVar, .pushVarRef, .lvalVar, .pushIdxI,
   .pushIdxV, .lvalIdxI, .lvalIdxV, .pushFld, .pushFldM, .lvalFld, .pushLoc, .lvalLoc, .bCall,
   .call, .callMulti, .callV, .callVCond, .funStart, .funEnd, .funMulti, .ret, .newVec, .pop,
   .popRef, .dup, .cont1, .iFor, .sFor, .vFor, .iForRef, .sForRef, .vForRef, .jump, .jumpFail,
   .jumpFailR, .jumpFailN, .jumpNoFail, .jumpNoFailR, .jumpFailRef, .jumpFailRRef, .jumpFailNRef,
   .jumpNoFailRef, .jumpNoFailRRef, .iAdd, .iSub, .iMul, .iDiv, .iMod, .iLt, .iGt, .iLe, .iGe,
   .iEq, .iNe, .fAdd, .fSub, .fMul, .fDiv, .fLt, .fGt, .fLe, .fGe, .fEq, .fNe, .sAdd, .sEq, .sNe,
   .uMinus, .logNot, .logNotRef, .i2F, .a2S, .e2B, .e2BRef, .isType, .coro, .coCl, .coEnd,
   .logRead, .logReadRef, .exit, .abort]

/-- The name of an opcode. -/
def name : Opcode → String
  | .pushInt => "PushInt" | .pushFlt => "PushFlt" | .pushStr => "PushStr" | .pushNil => "PushNil"
  | .pushFun => "PushFun" | .pushVar => "PushVar" | .pushVarRef => "PushVarRef"
  | .lvalVar => "LvalVar" | .pushIdxI => "PushIdxI" | .pushIdxV => "PushIdxV"
  | .lvalIdxI => "LvalIdxI" | .lvalIdxV => "LvalIdxV" | .pushFld => "PushFld"
  | .pushFldM => "PushFldM" | .lvalFld => "LvalFld" | .pushLoc => "PushLoc"
  | .lvalLoc => "LvalLoc" | .bCall => "BCall" | .call => "Call" | .callMulti => "CallMulti"
  | .callV => "CallV" | .callVCond => "CallVCond" | .funStart => "FunStart" | .funEnd => "FunEnd"
  | .funMulti => "FunMulti" | .ret => "Return" | .newVec => "NewVec" | .pop => "Pop"
  | .popRef => "PopRef" | .dup => "Dup" | .cont1 => "Cont1" | .iFor => "IFor" | .sFor => "SFor"
  | .vFor => "VFor" | .iForRef => "IForRef" | .sForRef => "SForRef" | .vForRef => "VForRef"
  | .jump => "Jump" | .jumpFail => "JumpFail" | .jumpFailR => "JumpFailR"
  | .jumpFailN => "JumpFailN" | .jumpNoFail => "JumpNoFail" | .jumpNoFailR => "JumpNoFailR"
  | .jumpFailRef => "JumpFailRef" | .jumpFailRRef => "JumpFailRRef"
  | .jumpFailNRef => "JumpFailNRef" | .jumpNoFailRef => "JumpNoFailRef"
  | .jumpNoFailRRef => "JumpNoFailRRef" | .iAdd => "IAdd" | .iSub => "ISub" | .iMul => "IMul"
  | .iDiv => "IDiv" | .iMod => "IMod" | .iLt => "ILt" | .iGt => "IGt" | .iLe => "ILe"
  | .iGe => "IGe" | .iEq => "IEq" | .iNe => "INe" | .fAdd => "FAdd" | .fSub => "FSub"
  | .fMul => "FMul" | .fDiv => "FDiv" | .fLt => "FLt" | .fGt => "FGt" | .fLe => "FLe"
  | .fGe => "FGe" | .fEq => "FEq" | .fNe => "FNe" | .sAdd => "SAdd" | .sEq => "SEq"
  | .sNe => "SNe" | .uMinus => "UMinus" | .logNot => "LogNot" | .logNotRef => "LogNotRef"
  | .i2F => "I2F" | .a2S => "A2S" | .e2B => "E2B" | .e2BRef => "E2BRef" | .isType => "IsType"
  | .coro => "Coro" | .coCl => "CoCl" | .coEnd => "CoEnd" | .logRead => "LogRead"
  | .logReadRef => "LogReadRef" | .exit => "Exit" | .abort => "Abort"

/-- The name of an opcode in listings, all in capitals. -/
def mnemonic : Opcode → String
  | .pushInt => "PUSHINT" | .pushFlt => "PUSHFLT" | .pushStr => "PUSHSTR" | .pushNil => "PUSHNIL"
  | .pushFun => "PUSHFUN" | .pushVar => "PUSHVAR" | .pushVarRef => "PUSHVARREF"
  | .lvalVar => "LVALVAR" | .pushIdxI => "PUSHIDXI" | .pushIdxV => "PUSHIDXV"
  | .lvalIdxI => "LVALIDXI" | .lvalIdxV => "LVALIDXV" | .pushFld => "PUSHFLD"
  | .pushFldM => "PUSHFLDM" | .lvalFld => "LVALFLD" | .pushLoc => "PUSHLOC"
  | .lvalLoc => "LVALLOC" | .bCall => "BCALL" | .call => "CALL" | .callMulti => "CALLMULTI"
  | .callV => "CALLV" | .callVCond => "CALLVCOND" | .funStart => "FUNSTART" | .funEnd => "FUNEND"
  | .funMulti => "FUNMULTI" | .ret => "RETURN" | .newVec => "NEWVEC" | .pop => "POP"
  | .popRef => "POPREF" | .dup => "DUP" | .cont1 => "CONT1" | .iFor => "IFOR" | .sFor => "SFOR"
  | .vFor => "VFOR" | .iForRef => "IFORREF" | .sForRef => "SFORREF" | .vForRef => "VFORREF"
  | .jump => "JUMP" | .jumpFail => "JUMPFAIL" | .jumpFailR => "JUMPFAILR"
  | .jumpFailN => "JUMPFAILN" | .jumpNoFail => "JUMPNOFAIL" | .jumpNoFailR => "JUMPNOFAILR"
  | .jumpFailRef => "JUMPFAILREF" | .jumpFailRRef => "JUMPFAILRREF"
  | .jumpFailNRef => "JUMPFAILNREF" | .jumpNoFailRef => "JUMPNOFAILREF"
  | .jumpNoFailRRef => "JUMPNOFAILRREF" | .iAdd => "IADD" | .iSub => "ISUB" | .iMul => "IMUL"
  | .iDiv => "IDIV" | .iMod => "IMOD" | .iLt => "ILT" | .iGt => "IGT" | .iLe => "ILE"
  | .iGe => "IGE" | .iEq => "IEQ" | .iNe => "INE" | .fAdd => "FADD" | .fSub => "FSUB"
  | .fMul => "FMUL" | .fDiv => "FDIV" | .fLt => "FLT" | .fGt => "FGT" | .fLe => "FLE"
  | .fGe => "FGE" | .fEq => "FEQ" | .fNe => "FNE" | .sAdd => "SADD" | .sEq => "SEQ"
  | .sNe => "SNE" | .uMinus => "UMINUS" | .logNot => "LOGNOT" | .logNotRef => "LOGNOTREF"
  | .i2F => "I2F" | .a2S => "A2S" | .e2B => "E2B" | .e2BRef => "E2BREF" | .isType => "ISTYPE"
  | .coro => "CORO" | .coCl => "COCL" | .coEnd => "COEND" | .logRead => "LOGREAD"
  | .logReadRef => "LOGREADREF" | .exit => "EXIT" | .abort => "ABORT"

/-- The shape of an instruction with this opcode. -/
def shape : Opcode → Shape
  | iFor | vFor | sFor | iForRef | vForRef | sForRef | pushInt | pushFun | cont1 | jump | jumpFail
  | jumpFailR | jumpFailN | jumpNoFail | jumpNoFailR | jumpFailRef | jumpFailRRef | jumpFailNRef
  | jumpNoFailRef | jumpNoFailRRef | logRead | logReadRef | isType | exit => .immediate
  | ret => .ret
  | callV | callVCond => .callValue
  | call => .call false
  | callMulti => .call true
  | newVec => .newVector
  | bCall => .callNative
  | pushVar | pushVarRef => .ident false
  | lvalVar => .ident true
  | pushFld | pushFldM | pushLoc => .slot false
  | lvalFld | lvalLoc => .slot true
  | lvalIdxI | lvalIdxV => .element
  | pushFlt => .float
  | pushStr => .text
  | funStart => .prologue
  | coro => .coroutine
  | funMulti => .dispatch
  | _ => .plain

/-- The word of an opcode. -/
def toWord (op : Opcode) : Word := .ofNat op.ctorIdx

/-- The opcode of a word, if it is one. -/
def ofWord? (word : Word) : Option Opcode := word.toCount?.bind (all[·]?)

/-- The word of an opcode stands for it. -/
theorem ofWord?_toWord (op : Opcode) : ofWord? op.toWord = some op := by
  cases op <;> rfl

end Opcode

namespace LvalOp

/-- All l-value operations in the order of their words. -/
def all : List LvalOp :=
  [.write, .writeR, .writeRef, .writeRRef, .iAdd, .iAddR, .iSub, .iSubR, .iMul, .iMulR, .iDiv,
   .iDivR, .iMod, .iModR, .fAdd, .fAddR, .fSub, .fSubR, .fMul, .fMulR, .fDiv, .fDivR, .sAdd,
   .sAddR, .iPP, .iPPR, .iMM, .iMMR, .iPPP, .iPPPR, .iMMP, .iMMPR, .fPP, .fPPR, .fMM, .fMMR,
   .fPPP, .fPPPR, .fMMP, .fMMPR]

/-- The name of an l-value operation. -/
def name : LvalOp → String
  | .write => "Write" | .writeR => "WriteR" | .writeRef => "WriteRef" | .writeRRef => "WriteRRef"
  | .iAdd => "IAdd" | .iAddR => "IAddR" | .iSub => "ISub" | .iSubR => "ISubR" | .iMul => "IMul"
  | .iMulR => "IMulR" | .iDiv => "IDiv" | .iDivR => "IDivR" | .iMod => "IMod" | .iModR => "IModR"
  | .fAdd => "FAdd" | .fAddR => "FAddR" | .fSub => "FSub" | .fSubR => "FSubR" | .fMul => "FMul"
  | .fMulR => "FMulR" | .fDiv => "FDiv" | .fDivR => "FDivR" | .sAdd => "SAdd" | .sAddR => "SAddR"
  | .iPP => "IPP" | .iPPR => "IPPR" | .iMM => "IMM" | .iMMR => "IMMR" | .iPPP => "IPPP"
  | .iPPPR => "IPPPR" | .iMMP => "IMMP" | .iMMPR => "IMMPR" | .fPP => "FPP" | .fPPR => "FPPR"
  | .fMM => "FMM" | .fMMR => "FMMR" | .fPPP => "FPPP" | .fPPPR => "FPPPR" | .fMMP => "FMMP"
  | .fMMPR => "FMMPR"

/-- The name of an l-value operation in listings, all in capitals. -/
def mnemonic : LvalOp → String
  | .write => "WRITE" | .writeR => "WRITER" | .writeRef => "WRITEREF" | .writeRRef => "WRITERREF"
  | .iAdd => "IADD" | .iAddR => "IADDR" | .iSub => "ISUB" | .iSubR => "ISUBR" | .iMul => "IMUL"
  | .iMulR => "IMULR" | .iDiv => "IDIV" | .iDivR => "IDIVR" | .iMod => "IMOD" | .iModR => "IMODR"
  | .fAdd => "FADD" | .fAddR => "FADDR" | .fSub => "FSUB" | .fSubR => "FSUBR" | .fMul => "FMUL"
  | .fMulR => "FMULR" | .fDiv => "FDIV" | .fDivR => "FDIVR" | .sAdd => "SADD" | .sAddR => "SADDR"
  | .iPP => "IPP" | .iPPR => "IPPR" | .iMM => "IMM" | .iMMR => "IMMR" | .iPPP => "IPPP"
  | .iPPPR => "IPPPR" | .iMMP => "IMMP" | .iMMPR => "IMMPR" | .fPP => "FPP" | .fPPR => "FPPR"
  | .fMM => "FMM" | .fMMR => "FMMR" | .fPPP => "FPPP" | .fPPPR => "FPPPR" | .fMMP => "FMMP"
  | .fMMPR => "FMMPR"

/-- The word of an l-value operation. -/
def toWord (op : LvalOp) : Word := .ofNat op.ctorIdx

/-- The l-value operation of a word, if it is one. -/
def ofWord? (word : Word) : Option LvalOp := word.toCount?.bind (all[·]?)

/-- The word of an l-value operation stands for it. -/
theorem ofWord?_toWord (op : LvalOp) : ofWord? op.toWord = some op := by
  cases op <;> rfl

end LvalOp

end Wordcode
