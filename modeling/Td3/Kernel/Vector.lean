/-
The exception handlers of kernel/vector_table.S for IRQs and undefined instructions, with the NEON
routines of kernel/neon.S they call, instruction by instruction (the configuration of config.h:
ENABLE_NEON without ENABLE_TESTING).
-/
import Td3.Kernel.Scheduler

namespace Td3.Kernel

open Arm

namespace Machine

variable (L : Layout) (env : Env)

abbrev r0 : Reg := .r 0
abbrev r1 : Reg := .r 1
abbrev r2 : Reg := .r 2
abbrev r3 : Reg := .r 3
abbrev r4 : Reg := .r 4
abbrev r5 : Reg := .r 5
abbrev r6 : Reg := .r 6
abbrev r7 : Reg := .r 7
abbrev r11 : Reg := .r 11
abbrev r12 : Reg := .r 12

/-! ## neon.S -/

def neonEnable (m : Cpu) : Cpu := m |> Cpu.movImm r0 0x40000000 |> Cpu.vmsrFpexc r0

def neonDisable (m : Cpu) : Cpu := m |> Cpu.movImm r0 0 |> Cpu.vmsrFpexc r0

def neonIsEnabled (m : Cpu) : Cpu :=
  let m := m |> Cpu.vmrsFpexc r0 |> Cpu.tstImm r0 0x40000000
  let m := if m.condEq then Cpu.movImm r0 0 m else m
  if m.condEq then m else Cpu.movImm r0 1 m

/-- `undef_neon_disabled` of `neon_undef_handler`, its first part: NEON enabled, and FPSCR and the NEON
registers from the context of the current task. -/
def neonRestore (m : Machine) : Machine :=
  let m := m.exec (Cpu.movImm .lr (env.returnAddress 1))
  let m := m.exec neonEnable
  let m := m.schedulerGetCurrentTaskContextAddr L env L.undStackLimit 0
  let m := m.exec (Cpu.addImm r0 r0 76#32)
  let m := m.exec (Cpu.ldrPost r1 r0)
  let m := m.exec (Cpu.vmsrFpscr r1)
  let m := m.exec (Cpu.vldmLow r0)
  m.exec (Cpu.vldmHigh r0)

/-- Its second part: how far to go back to retry. -/
def neonRetry (m : Cpu) : Cpu :=
  let m := m |> Cpu.mrsSpsr r0 |> Cpu.tstImm r0 0x20
  let m := if m.condEq then Cpu.movImm r0 4 m else m
  if m.condEq then m else Cpu.movImm r0 2 m

/-- `neon_undef_handler` up to its branch. -/
def neonCheck (m : Machine) : Machine :=
  let m := m.exec (Cpu.push [r12, .lr])
  let m := m.exec (Cpu.movImm .lr (env.returnAddress 0))
  let m := m.exec neonIsEnabled
  m.exec (Cpu.teqImm r0 1)

/-- `neon_undef_handler`; its value in r0 is what to subtract from the link register. -/
def neonUndefHandler (m : Machine) : Machine :=
  let m := m.neonCheck env
  let m := if m.cpu.condEq then m.exec (Cpu.movImm r0 0) else (m.neonRestore L env).exec neonRetry
  m.exec (Cpu.pop [r12, .lr])

/-! ## vector_table.S -/

/-- `UND_handler` -/
def undHandler (m : Machine) : Machine :=
  let m := m.exec (Cpu.push [r0, r1, r2, r3, r12])
  let m := m.exec (Cpu.push [.lr])
  let m := m.exec (Cpu.movImm .lr (env.returnAddress 2))
  let m := m.neonUndefHandler L env
  let m := m.exec (Cpu.pop [.lr])
  let m := m.exec (Cpu.sub .lr .lr r0)
  let m := m.exec (Cpu.pop [r0, r1, r2, r3, r12])
  m.exec (Cpu.exceptionReturn 0)

/-- `save_context` of `IRQ_handler`, up to `pop {r0-r3, r12}`: TTBR0 and the status word. The ASID is
left as it is. -/
def saveStatus (m : Machine) : Machine :=
  let m := m.exec (Cpu.push [r0, r1, r2, r3, r12, .lr])
  let m := m.schedulerGetLastTaskContextAddr L env L.irqStackLimit 1
  let m := m.exec (Cpu.mov .lr r0)
  let m := m.exec (Cpu.mrcTtbr0 r0)
  let m := m.exec (Cpu.strPost r0 .lr)
  let m := m.exec (Cpu.addImm .lr .lr 4#32)
  let m := m.exec (Cpu.mrsSpsr r0)
  let m := m.exec (Cpu.strPost r0 .lr)
  m.exec (Cpu.pop [r0, r1, r2, r3, r12])

/-- Its next part: r0 to r12, the stack pointer and the link register of SYS mode, and the address to
resume at. -/
def saveRegisters (m : Machine) : Machine :=
  let m := m.exec (Cpu.stmR0R12 .lr)
  let m := m.exec (Cpu.mov r12 .lr)
  let m := m.exec (Cpu.cps SYS_MODE)
  let m := m.exec (Cpu.strPost .sp r12)
  let m := m.exec (Cpu.strPost .lr r12)
  let m := m.exec (Cpu.cps IRQ_MODE)
  let m := m.exec (Cpu.pop [.lr])
  m.exec (Cpu.strPost .lr r12)

/-- Its last part: the NEON registers, if NEON is enabled, and NEON disabled. -/
def saveNeon (m : Machine) : Machine :=
  let m := m.exec (Cpu.movImm .lr (env.returnAddress 3))
  let m := m.exec neonIsEnabled
  let m := m.exec (Cpu.teqImm r0 0)
  if m.cpu.condEq then m
  else
    let m := m.exec (Cpu.vmrsFpscr r0)
    let m := m.exec (Cpu.strPost r0 r12)
    let m := m.exec (Cpu.vstmLow r12)
    let m := m.exec (Cpu.vstmHigh r12)
    let m := m.exec (Cpu.movImm .lr (env.returnAddress 4))
    m.exec neonDisable

/-- `save_context` of `IRQ_handler` -/
def saveContext (m : Machine) : Machine := (m.saveStatus L env).saveRegisters.saveNeon env

/-- `WRITE_TTBR0_WITH_ASID ttbr0_reg, asid_reg`; the first step is `WRITE_ASID_CONSTANT 0`. -/
def writeTtbr0WithAsid (ttbr0Reg asidReg : Reg) (m : Machine) : Machine :=
  let m := m.exec (Cpu.push [r0])
  let m := m.exec (Cpu.mrcContextidr r0)
  let m := m.exec (Cpu.bicImm r0 r0 0xFF)
  let m := m.exec (Cpu.orrImm r0 r0 0)
  let m := m.exec (Cpu.mcrContextidr r0)
  let m := m.exec (Cpu.pop [r0])
  let m := m.exec (Cpu.mcrTtbr0 ttbr0Reg)
  let m := m.exec (Cpu.mrcContextidr ttbr0Reg)
  let m := m.exec (Cpu.bicImm ttbr0Reg ttbr0Reg 0xFF)
  let m := m.exec (Cpu.orr ttbr0Reg ttbr0Reg asidReg)
  m.exec (Cpu.mcrContextidr ttbr0Reg)

/-- `load_new_context` of `IRQ_handler`, up to `msr spsr, r0`: the table with its ASID, and the status
word. -/
def loadStatus (m : Machine) : Machine :=
  let m := m.schedulerGetCurrentTaskContextAddr L env L.irqStackLimit 2
  let m := m.exec (Cpu.mov .lr r0)
  let m := m.exec (Cpu.ldrPost r0 .lr)
  let m := m.exec (Cpu.ldrPost r1 .lr)
  let m := m.writeTtbr0WithAsid r0 r1
  let m := m.exec (Cpu.ldrPost r0 .lr)
  m.exec (Cpu.msrSpsr r0)

/-- Its last part: the registers, and the return from the handler. -/
def loadRegisters (m : Machine) : Machine :=
  let m := m.exec (Cpu.mov r0 .lr)
  let m := m.exec (Cpu.cps SYS_MODE)
  let m := m.exec (Cpu.ldr .sp r0 52)
  let m := m.exec (Cpu.ldr .lr r0 56)
  let m := m.exec (Cpu.cps IRQ_MODE)
  let m := m.exec (Cpu.ldmR0R12 .lr)
  let m := m.exec (Cpu.ldr .lr .lr 8)
  m.exec (Cpu.exceptionReturn 4)

/-- `load_new_context` of `IRQ_handler` -/
def loadNewContext (m : Machine) : Machine := (m.loadStatus L env).loadRegisters

/-- The call of `irq_handler` at the head of `IRQ_handler`, up to the branch on its value. -/
def callIrqHandler (m : Machine) : Option Machine :=
  let m := m.exec (Cpu.push [r0, r1, r2, r3, r12, .lr])
  (irqHandler m.kernel).map fun (ret, kernel) =>
    let m : Machine := ⟨Cpu.call L.irqStackLimit (env.junk 3 m) ret m.cpu, kernel⟩
    let m := m.exec (Cpu.movImm r1 (addrOf L.irqReturn))
    let m := m.exec (Cpu.str r0 r1)
    let m := m.exec (Cpu.cmpZero r0)
    m.exec (Cpu.pop [r0, r1, r2, r3, r12, .lr])

/-- `IRQ_handler`; `none` where `irq_handler` does not return. -/
def irqHandlerAsm (m : Machine) : Option Machine :=
  (m.callIrqHandler L env).map fun m =>
    if m.cpu.condGt then m.loadNewContext L env else (m.saveContext L env).loadNewContext L env

end Machine

end Td3.Kernel
