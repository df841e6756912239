import Mathlib.Tactic.Common

namespace Encoding

def opcode (w : BitVec 32) : BitVec 7 := w.extractLsb' 0 7
def rd (w : BitVec 32) : BitVec 5 := w.extractLsb' 7 5
def funct3 (w : BitVec 32) : BitVec 3 := w.extractLsb' 12 3
def rs2 (w : BitVec 32) : BitVec 5 := w.extractLsb' 20 5
def fmt (w : BitVec 32) : BitVec 2 := w.extractLsb' 25 2
def funct7 (w : BitVec 32) : BitVec 7 := w.extractLsb' 25 7
def funct6 (w : BitVec 32) : BitVec 6 := w.extractLsb' 26 6
def funct5 (w : BitVec 32) : BitVec 5 := w.extractLsb' 27 5

/-- The rounding modes 5 and 6 are reserved. -/
def rounds (w : BitVec 32) : Bool := funct3 w ≠ 5 && funct3 w ≠ 6

/-- `OP-IMM`: the shifts have an amount of six bits. -/
def isOpImm (w : BitVec 32) : Bool :=
  match funct3 w with
  | 1 => funct6 w = 0x00
  | 5 => funct6 w = 0x00 || funct6 w = 0x10
  | _ => true

def isOpImm32 (w : BitVec 32) : Bool :=
  match funct3 w with
  | 0 => true
  | 1 => funct7 w = 0x00
  | 5 => funct7 w = 0x00 || funct7 w = 0x20
  | _ => false

def isOp (w : BitVec 32) : Bool :=
  match funct7 w with
  | 0x00 => true
  | 0x01 => true
  | 0x20 => funct3 w = 0 || funct3 w = 5
  | _ => false

def isOp32 (w : BitVec 32) : Bool :=
  match funct7 w with
  | 0x00 => funct3 w = 0 || funct3 w = 1 || funct3 w = 5
  | 0x01 => funct3 w ≠ 1 && funct3 w ≠ 2 && funct3 w ≠ 3
  | 0x20 => funct3 w = 0 || funct3 w = 5
  | _ => false

/-- `FMADD`, `FMSUB`, `FNMSUB` and `FNMADD`, in single and double precision. -/
def isFused (w : BitVec 32) : Bool := (fmt w = 0 || fmt w = 1) && rounds w

/-- `OP-FP`. -/
def isFloatOp (w : BitVec 32) : Bool :=
  match funct7 w with
  | 0x00 | 0x01 | 0x04 | 0x05 | 0x08 | 0x09 | 0x0c | 0x0d => rounds w
  | 0x10 | 0x11 | 0x50 | 0x51 => funct3 w = 0 || funct3 w = 1 || funct3 w = 2
  | 0x14 | 0x15 => funct3 w = 0 || funct3 w = 1
  | 0x20 => rs2 w = 1 && rounds w
  | 0x21 => rs2 w = 0 && rounds w
  | 0x2c | 0x2d => rs2 w = 0 && rounds w
  | 0x60 | 0x61 | 0x68 | 0x69 =>
    (rs2 w = 0 || rs2 w = 1 || rs2 w = 2 || rs2 w = 3) && rounds w
  | 0x70 | 0x71 => rs2 w = 0 && (funct3 w = 0 || funct3 w = 1)
  | 0x78 | 0x79 => rs2 w = 0 && funct3 w = 0
  | _ => false

/-- `AMO`, with `LR` and `SC`. -/
def isAmo (w : BitVec 32) : Bool :=
  (funct3 w = 2 || funct3 w = 3) &&
    match funct5 w with
    | 0x02 => rs2 w = 0
    | 0x00 | 0x01 | 0x03 | 0x04 | 0x08 | 0x0c | 0x10 | 0x14 | 0x18 | 0x1c => true
    | _ => false

/-- `SYSTEM`: `ECALL`, `EBREAK`, `SRET`, `MRET`, `WFI`, `SFENCE.VMA` and the CSR instructions. -/
def isSystem (w : BitVec 32) : Bool :=
  match funct3 w with
  | 0 =>
    w = 0x00000073 || w = 0x00100073 || w = 0x10200073 || w = 0x30200073 || w = 0x10500073 ||
      (funct7 w = 0x09 && rd w = 0)
  | 4 => false
  | _ => true

def isValid (w : BitVec 32) : Bool :=
  match opcode w with
  | 0x03 => funct3 w ≠ 7
  | 0x07 | 0x27 => funct3 w = 2 || funct3 w = 3
  | 0x0f => funct3 w = 0 || funct3 w = 1
  | 0x13 => isOpImm w
  | 0x17 | 0x37 | 0x6f => true
  | 0x1b => isOpImm32 w
  | 0x23 => funct3 w = 0 || funct3 w = 1 || funct3 w = 2 || funct3 w = 3
  | 0x2f => isAmo w
  | 0x33 => isOp w
  | 0x3b => isOp32 w
  | 0x43 | 0x47 | 0x4b | 0x4f => isFused w
  | 0x53 => isFloatOp w
  | 0x63 => funct3 w ≠ 2 && funct3 w ≠ 3
  | 0x67 => funct3 w = 0
  | 0x73 => isSystem w
  | _ => false

/-- `addw x5, x6, x7` and `divw x5, x6, x7`, with and without a stray bit of `funct7`. -/
example : isValid 0x007302bb = true ∧ isValid 0x087302bb = false ∧ isValid 0x027342bb = true ∧
    isValid 0x0a7342bb = false := by decide

end Encoding
