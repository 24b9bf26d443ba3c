import Feudos.Util.Str
import Feudos.Vga.Printf

/-!
# The command handlers (`kernel/ksh/handlers.c`)

A handler prints on the terminal and returns, but for `ksh_hndl_panic`, which ends in
`kernel_panic` and never returns.  What handlers read from elsewhere is in `Machine`.
-/

namespace Feudos

open Vga

/-! ## The machine -/

/-- The registers that `cpuid` sets. -/
structure CpuidRegs where
  eax : UInt32
  ebx : UInt32
  ecx : UInt32
  edx : UInt32

/-- The timer's `ticks`, the answers of `cpuid` by leaf (leaf 7: subleaf 0), and the bytes behind
the array `brand` on the stack of `ksh_hndl_cpuid`. -/
structure Machine where
  ticks : UInt64
  cpuid : UInt32 → CpuidRegs
  stack : List UInt8

def timerFreq : UInt64 := 100

/-- `timer_uptime_ms`. -/
def timerUptimeMs (m : Machine) : UInt64 :=
  m.ticks * 1000 / timerFreq

/-- The four bytes of a register in memory. -/
def regBytes (r : UInt32) : List UInt8 :=
  [r.toUInt8, (r >>> 8).toUInt8, (r >>> 16).toUInt8, (r >>> 24).toUInt8]

/-! ## Names and texts -/

def kernelName : List UInt8 := bytes "FeudOS kernel"
def kernelVer : List UInt8 := bytes "v0.0.7"
def kernelArch : List UInt8 := bytes "x86_64"

def panicColor : UInt8 := 0x4
def defTextCol : UInt8 := 0xF

/-- The functions in the table of commands. -/
inductive Handler
  | uptime
  | cpuid
  | clear
  | uname
  | panic
  | echo
  | help
  deriving DecidableEq, Repr

/-- `struct ksh_cmd`. -/
structure KshCmd where
  name : String
  func : Handler
  help : String
  deriving DecidableEq

/-- `ksh_handlers` after `ksh_populate_base_cmds`. -/
def kshHandlers : List KshCmd :=
  [ { name := "uptime", func := .uptime, help := "Prints how long machine been running" },
    { name := "cpuid", func := .cpuid, help := "Prints some info about this machine's CPU" },
    { name := "clear", func := .clear, help := "Clears the screen" },
    { name := "uname", func := .uname, help := "Clears the screen" },
    { name := "panic", func := .panic,
      help := "Triggers a kernel panic with specified message." },
    { name := "echo", func := .echo, help := "Repeat the specified text." },
    { name := "help", func := .help, help := "Print help message." } ]

/-! ## The handlers -/

/-- `ksh_hndl_uptime`. -/
def kshHndlUptime (m : Machine) (t : Terminal) : Terminal :=
  let msUp := timerUptimeMs m
  let totalSeconds := msUp / 1000
  let hUp := totalSeconds / 3600
  let mUp := totalSeconds / 60 % 60
  let sUp := totalSeconds % 60
  kprintf t (cstr "up %lu:%lu:%lu\n") [.ulong hUp, .ulong mUp, .ulong sUp]

/-- `r & (1u << n)` as a `bool`. -/
def testBit (r n : UInt32) : Bool :=
  r &&& ((1 : UInt32) <<< n) ≠ 0

/-- An entry of `feature_names`, of seven bytes. -/
def featureName (name : String) : List UInt8 :=
  cText ((strncpyF (cstr name) 7).getD [])

/-- The arrays `features` and `feature_names`. -/
def features (m : Machine) : List (Bool × List UInt8) :=
  let regs := m.cpuid 1
  [ (testBit regs.ecx 0, featureName "SSE3"),
    (testBit regs.ecx 19, featureName "SSE4.1"),
    (testBit regs.ecx 20, featureName "SSE4.2"),
    (testBit regs.edx 9, featureName "APIC"),
    (testBit regs.ecx 28, featureName "AVX"),
    (testBit (m.cpuid 7).ebx 5, featureName "AVX2") ]

/-- `ksh_hndl_cpuid`.  The array `brand` has no room for a terminator. -/
def kshHndlCpuid (m : Machine) (t : Terminal) : Terminal :=
  let regs := m.cpuid 0
  let vendor := regBytes regs.ebx ++ regBytes regs.edx ++ regBytes regs.ecx ++ [0]
  let t := kprintf t (cstr "CPU vendor: %s\n") [.str (cText vendor)]
  let brand := [0x80000002, 0x80000003, 0x80000004].flatMap (fun leaf =>
    let regs := m.cpuid leaf
    regBytes regs.eax ++ regBytes regs.ebx ++ regBytes regs.ecx ++ regBytes regs.edx)
  let t := kprintf t (cstr "CPU model: %s\n") [.str (cText (brand ++ m.stack))]
  let t := kprintf t (cstr "Features: ") []
  let t := (features m).foldl (fun t feature =>
    kprintf t (cstr " %s%s ")
      [.str (if feature.1 then bytes "+" else bytes "-"), .str feature.2]) t
  kprintf t (cstr "\n") []

/-- `ksh_hndl_clear`. -/
def kshHndlClear (t : Terminal) : Terminal :=
  vgaClearScreen (vgaMoveCursor t 0 0) defTextCol

/-- `ksh_hndl_uname`. -/
def kshHndlUname (t : Terminal) : Terminal :=
  kprintf t (cstr "%s %s %s\n") [.str kernelName, .str kernelVer, .str kernelArch]

/-- `kernel_panic`, up to the loop it ends in. -/
def kernelPanic (t : Terminal) (msg : List UInt8) (args : List VaArg) : Terminal :=
  let t := kprintf t (cstr "%kKernel panic!\n\t") [.int panicColor.toInt8.toInt32]
  kprintf t msg args

/-- `ksh_hndl_panic`, up to the loop of `kernel_panic`. -/
def kshHndlPanic (t : Terminal) (args : List UInt8) : Terminal :=
  kernelPanic t (cstr "%s\n") [.str (cText args)]

/-- `ksh_hndl_help`. -/
def kshHndlHelp (t : Terminal) : Terminal :=
  kshHandlers.foldl (fun t hndl =>
    kprintf t (cstr "%s: %s\n") [.str (bytes hndl.name), .str (bytes hndl.help)]) t

/-- `ksh_hndl_echo`. -/
def kshHndlEcho (t : Terminal) (args : List UInt8) : Terminal :=
  kprintf t (cstr "%s\n") [.str (cText args)]

/-- A call `func(args)`: the terminal it leaves, and whether it returns. -/
def Handler.call (m : Machine) (t : Terminal) (args : List UInt8) : Handler → Terminal × Bool
  | .uptime => (kshHndlUptime m t, true)
  | .cpuid => (kshHndlCpuid m t, true)
  | .clear => (kshHndlClear t, true)
  | .uname => (kshHndlUname t, true)
  | .panic => (kshHndlPanic t args, false)
  | .echo => (kshHndlEcho t args, true)
  | .help => (kshHndlHelp t, true)

/-- A handler sees its argument as a string. -/
theorem call_congr (m : Machine) (t : Terminal) {args args' : List UInt8}
    (h : cText args = cText args') (f : Handler) : f.call m t args = f.call m t args' := by
  cases f <;> simp [Handler.call, kshHndlPanic, kshHndlEcho, h]

/-- Only `panic` never returns. -/
theorem call_returns (m : Machine) (t : Terminal) (args : List UInt8) (h : Handler) :
    (h.call m t args).2 = true ↔ h ≠ .panic := by
  cases h <;> simp [Handler.call]

end Feudos
