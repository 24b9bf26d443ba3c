import Feudos.Shell.Parse
import Feudos.Vga.Message
import Feudos.Vga.Numerals

/-!
# What the commands print

The effect of a line handed to `ksh_exec`, said without the terminal: a text, a cleared screen, or
a panic with its message.  `kshExec_effect` says that `ksh_exec` has this effect on every terminal,
for every line.
-/

namespace Feudos

open Vga Segments

/-! ## Effects -/

/-- What a line makes the shell do. -/
inductive Effect
  | prints (text : List UInt8)
  | clears
  | panics (text : List UInt8)
  deriving DecidableEq

/-- What `kernel_panic` prints before the message. -/
def panicHead : List UInt8 := bytes "Kernel panic!\n\t"

def Effect.apply (t : Terminal) : Effect → Terminal
  | .prints text => putText t (inColour t.textColor text)
  | .clears => vgaClearScreen (vgaMoveCursor t 0 0) defTextCol
  | .panics text =>
      let t := vgaChangeTextColor (putText t (inColour panicColor panicHead)) panicColor
      putText t (inColour panicColor text)

/-- Whether the shell goes on. -/
def Effect.returns : Effect → Bool
  | .panics _ => false
  | _ => true

/-! ## The texts of the handlers -/

def uptimeText (m : Machine) : List UInt8 :=
  let totalSeconds := timerUptimeMs m / 1000
  bytes "up " ++ (kprintUint (totalSeconds / 3600) 10 ++ (bytes ":" ++
    (kprintUint (totalSeconds / 60 % 60) 10 ++ (bytes ":" ++
      (kprintUint (totalSeconds % 60) 10 ++ [10])))))

/-- The array `vendor`. -/
def vendorText (m : Machine) : List UInt8 :=
  let regs := m.cpuid 0
  cText (regBytes regs.ebx ++ regBytes regs.edx ++ regBytes regs.ecx ++ [0])

/-- The array `brand` and what lies behind it. -/
def brandText (m : Machine) : List UInt8 :=
  let brand := [0x80000002, 0x80000003, 0x80000004].flatMap (fun leaf =>
    let regs := m.cpuid leaf
    regBytes regs.eax ++ regBytes regs.ebx ++ regBytes regs.ecx ++ regBytes regs.edx)
  cText (brand ++ m.stack)

def featureText (feature : Bool × List UInt8) : List UInt8 :=
  bytes " " ++ ((if feature.1 then bytes "+" else bytes "-") ++ (feature.2 ++ bytes " "))

def cpuidText (m : Machine) : List UInt8 :=
  bytes "CPU vendor: " ++ (vendorText m ++ [10]) ++
    (bytes "CPU model: " ++ (brandText m ++ [10]) ++
      (bytes "Features: " ++ ((features m).flatMap featureText ++ [10])))

def unameText : List UInt8 :=
  kernelName ++ (bytes " " ++ (kernelVer ++ (bytes " " ++ (kernelArch ++ [10]))))

def helpLine (hndl : KshCmd) : List UInt8 :=
  bytes hndl.name ++ (bytes ": " ++ (bytes hndl.help ++ [10]))

/-- The effect of a handler called with the string `args`. -/
def Handler.effect (m : Machine) (args : List UInt8) : Handler → Effect
  | .uptime => .prints (uptimeText m)
  | .cpuid => .prints (cpuidText m)
  | .clear => .clears
  | .uname => .prints unameText
  | .panic => .panics (args ++ [10])
  | .echo => .prints (args ++ [10])
  | .help => .prints (kshHandlers.flatMap helpLine)

/-! ## The effect of a line -/

/-- The name that `ksh_exec` looks up: the line up to the first space, or that space if the line
begins with it. -/
def commandName (line : List UInt8) : List UInt8 :=
  if line.head? = some 32 then [32] else line.takeWhile (· ≠ 32)

/-- The line behind the name and the spaces. -/
def commandArgs (line : List UInt8) : List UInt8 :=
  (line.dropWhile (· ≠ 32)).dropWhile (· = 32)

def commandEffect (m : Machine) (line : List UInt8) : Effect :=
  match kshHandlers.find? (fun cur => commandName line = bytes cur.name) with
  | some cur => cur.func.effect m (commandArgs line)
  | none => .prints (bytes "Unknown command: " ++ (commandName line ++ [10]))

/-! ## The handlers have their effects -/

theorem putText_inColour (t : Terminal) (color : UInt8) (a b : List UInt8) :
    putText (putText t (inColour color a)) (inColour color b) =
      putText t (inColour color (a ++ b)) := by
  rw [inColour_append, putText_append]

/-- Printing for each element of a list. -/
theorem foldl_kprintf {α : Type} (msg : List UInt8) (args : α → List VaArg)
    (text : α → List UInt8)
    (h : ∀ t x, kprintf t msg (args x) = putText t (inColour t.textColor (text x)))
    (xs : List α) (t : Terminal) :
    xs.foldl (fun t x => kprintf t msg (args x)) t =
      putText t (inColour t.textColor (xs.flatMap text)) := by
  induction xs generalizing t with
  | nil =>
      rfl
  | cons x xs ih =>
      rw [List.foldl_cons, ih, h, putText_textColor, putText_inColour, List.flatMap_cons]

theorem kshHndlUptime_eq (m : Machine) (t : Terminal) :
    kshHndlUptime m t = putText t (inColour t.textColor (uptimeText m)) := by
  have h := kprintf_pieces t [.text (bytes "up "), .lu (timerUptimeMs m / 1000 / 3600),
    .text (bytes ":"), .lu (timerUptimeMs m / 1000 / 60 % 60), .text (bytes ":"),
    .lu (timerUptimeMs m / 1000 % 60), .text [10]] rfl
  exact h

theorem kprintf_feature (t : Terminal) (feature : Bool × List UInt8) :
    kprintf t (cstr " %s%s ")
        [.str (if feature.1 then bytes "+" else bytes "-"), .str feature.2] =
      putText t (inColour t.textColor (featureText feature)) :=
  kprintf_pieces t [.text (bytes " "), .str (if feature.1 then bytes "+" else bytes "-"),
    .str feature.2, .text (bytes " ")] rfl

theorem kshHndlCpuid_eq (m : Machine) (t : Terminal) :
    kshHndlCpuid m t = putText t (inColour t.textColor (cpuidText m)) := by
  have hvendor : ∀ t, kprintf t (cstr "CPU vendor: %s\n") [.str (vendorText m)] =
      putText t (inColour t.textColor (bytes "CPU vendor: " ++ (vendorText m ++ [10]))) := fun t =>
    kprintf_pieces t [.text (bytes "CPU vendor: "), .str (vendorText m), .text [10]] rfl
  have hbrand : ∀ t, kprintf t (cstr "CPU model: %s\n") [.str (brandText m)] =
      putText t (inColour t.textColor (bytes "CPU model: " ++ (brandText m ++ [10]))) := fun t =>
    kprintf_pieces t [.text (bytes "CPU model: "), .str (brandText m), .text [10]] rfl
  have hhead : ∀ t, kprintf t (cstr "Features: ") [] =
      putText t (inColour t.textColor (bytes "Features: ")) := fun t =>
    kprintf_pieces t [.text (bytes "Features: ")] rfl
  have hend : ∀ t, kprintf t (cstr "\n") [] = putText t (inColour t.textColor [10]) := fun t =>
    kprintf_pieces t [.text [10]] rfl
  have hfeatures := foldl_kprintf (cstr " %s%s ") _ featureText kprintf_feature (features m)
  -- The five parts in the order of the source, each behind the text so far.
  calc
    kshHndlCpuid m t
        = kprintf ((features m).foldl (fun t feature => kprintf t (cstr " %s%s ")
            [.str (if feature.1 then bytes "+" else bytes "-"), .str feature.2])
              (kprintf (kprintf (kprintf t (cstr "CPU vendor: %s\n") [.str (vendorText m)])
                (cstr "CPU model: %s\n") [.str (brandText m)]) (cstr "Features: ") []))
              (cstr "\n") [] := rfl
    _ = putText t (inColour t.textColor (cpuidText m)) := by
          rw [hend, hfeatures, hhead, hbrand, hvendor]
          simp only [putText_textColor, putText_inColour, cpuidText, List.append_assoc]

theorem kshHndlUname_eq (t : Terminal) :
    kshHndlUname t = putText t (inColour t.textColor unameText) :=
  kprintf_pieces t [.str kernelName, .text (bytes " "), .str kernelVer, .text (bytes " "),
    .str kernelArch, .text [10]] rfl

theorem kshHndlHelp_eq (t : Terminal) :
    kshHndlHelp t = putText t (inColour t.textColor (kshHandlers.flatMap helpLine)) := by
  refine foldl_kprintf (cstr "%s: %s\n") _ helpLine (fun t hndl => ?_) kshHandlers t
  exact kprintf_pieces t [.str (bytes hndl.name), .text (bytes ": "),
    .str (bytes hndl.help), .text [10]] rfl

/-- A string and a newline. -/
theorem kprintf_line (t : Terminal) (text : List UInt8) :
    kprintf t (cstr "%s\n") [.str text] = putText t (inColour t.textColor (text ++ [10])) :=
  kprintf_pieces t [.str text, .text [10]] rfl

/-- `kernel_panic` prints on in its colour. -/
theorem kernelPanic_eq (t : Terminal) (ps : List Piece) (hps : ps.all Piece.proper = true) :
    kernelPanic t (ps.flatMap Piece.format ++ [0]) (ps.flatMap Piece.args) =
      (Effect.panics (ps.flatMap Piece.shown)).apply t := by
  have hcolour : intToChar panicColor.toInt8.toInt32 = panicColor := by decide
  have hk : specifier 107 [.int panicColor.toInt8.toInt32] t.textColor =
      some ([], [], panicColor) := by
    simp [specifier, hcolour]
  have hscan : kvprintf (cstr "%kKernel panic!\n\t") [.int panicColor.toInt8.toInt32] t.textColor =
      { out := inColour panicColor panicHead, args := [], textColor := panicColor,
        stop := .returned } := by
    have hformat : cstr "%kKernel panic!\n\t" = 37 :: 107 :: (panicHead ++ [0]) := by decide
    have htext := kvprintf_text panicHead [] panicColor (by decide)
    rw [hformat, kvprintf_specifier (by decide) (by decide), hk]
    simp only [htext, Formatted.prepend, List.nil_append]
  have hfirst : kprintf t (cstr "%kKernel panic!\n\t") [.int panicColor.toInt8.toInt32] =
      vgaChangeTextColor (putText t (inColour panicColor panicHead)) panicColor := by
    rw [kprintf, hscan]
    rfl
  rw [kernelPanic, hfirst, kprintf_pieces _ ps hps]
  rfl

/-- A handler has its effect on the terminal, and returns if its effect says so. -/
theorem call_effect (m : Machine) (t : Terminal) (args : List UInt8) (h : Handler) :
    (h.call m t args).1 = (h.effect m (cText args)).apply t ∧
      (h.call m t args).2 = (h.effect m (cText args)).returns := by
  cases h with
  | uptime =>
      exact ⟨kshHndlUptime_eq m t, rfl⟩
  | cpuid =>
      exact ⟨kshHndlCpuid_eq m t, rfl⟩
  | clear =>
      exact ⟨rfl, rfl⟩
  | uname =>
      exact ⟨kshHndlUname_eq t, rfl⟩
  | panic =>
      exact ⟨kernelPanic_eq t [.str (cText args), .text [10]] rfl, rfl⟩
  | echo =>
      exact ⟨kprintf_line t (cText args), rfl⟩
  | help =>
      exact ⟨kshHndlHelp_eq t, rfl⟩

/-! ## Every line has its effect -/

section

variable {line name word rest : List UInt8} {k : Nat}

theorem commandName_space (text : List UInt8) : commandName (32 :: text) = [32] := rfl

/-- The name and the arguments of a line that is split at its first spaces. -/
theorem commandName_split (h : Split 32 word k rest)
    (hhead : (word ++ (List.replicate k 32 ++ rest)).head? ≠ some 32) :
    commandName (word ++ (List.replicate k 32 ++ rest)) = word := by
  have hword : ∀ c ∈ word, decide (c ≠ 32) = true := fun c hc => by
    simpa using fun hEq : c = 32 => h.word_free (hEq ▸ hc)
  rw [commandName, if_neg hhead, List.takeWhile_append_of_pos hword]
  cases k with
  | zero =>
      simp [h.rest_nil rfl]
  | succ k =>
      simp [List.replicate_succ]

theorem commandArgs_split (h : Split 32 word k rest) :
    commandArgs (word ++ (List.replicate k 32 ++ rest)) = rest := by
  have hword : ∀ c ∈ word, decide (c ≠ 32) = true := fun c hc => by
    simpa using fun hEq : c = 32 => h.word_free (hEq ▸ hc)
  have hspaces : ∀ c ∈ List.replicate k (32 : UInt8), decide (c = 32) = true := fun c hc => by
    simpa using List.eq_of_mem_replicate hc
  have hrest : rest.dropWhile (fun c => decide (c = 32)) = rest := by
    cases rest with
    | nil =>
        rfl
    | cons c rest =>
        have hc : c ≠ 32 := fun hEq => h.rest_head (by simp [hEq])
        simp [hc]
  rw [commandArgs, List.dropWhile_append_of_pos hword]
  cases k with
  | zero =>
      simp [h.rest_nil rfl]
  | succ k =>
      have hfirst : (List.replicate (k + 1) (32 : UInt8) ++ rest).dropWhile (fun c => c ≠ 32) =
          List.replicate (k + 1) 32 ++ rest := by
        simp [List.replicate_succ]
      rw [hfirst, List.dropWhile_append_of_pos hspaces, hrest]

/-- What `ksh_exec` does once the name's end and the arguments are found. -/
theorem kshExec_of_cut (m : Machine) (t : Terminal) (name : List UInt8) {mem : List UInt8}
    {c : UInt8} {argsStart : Option Nat} (hnext : strfnl (name ++ c :: mem) 32 = some argsStart)
    (hend : strfle (name ++ c :: mem) 32 = some ((name.length : Int) - 1)) :
    kshExec m t (name ++ c :: mem) = kshDispatch m t argsStart (name ++ 0 :: mem) := by
  rw [kshExec_eq, hnext, Option.bind_some, hend, Option.bind_some, store_cut, Option.bind_some]

/-- A line that begins with a space is cut behind that space. -/
theorem kshExec_cut_space (m : Machine) (t : Terminal) {text : List UInt8}
    (hfree : NulFree (32 :: text)) (mem : List UInt8) :
    ∃ argsStart mem', kshExec m t (32 :: (text ++ 0 :: mem)) =
      kshDispatch m t argsStart ([32] ++ 0 :: mem') := by
  rcases @strfnl_text 32 (32 :: text) (by decide) hfree with ⟨argsStart, -, hnext⟩
  obtain ⟨c, mem', hbehind⟩ : ∃ c mem', text ++ 0 :: mem = c :: mem' :=
    List.exists_cons_of_ne_nil (by simp)
  have hnext' := hnext mem
  rw [List.cons_append, hbehind] at hnext'
  refine ⟨argsStart, mem', ?_⟩
  rw [hbehind]
  exact kshExec_of_cut m t [32] hnext' (strfle_separator (by decide) _)

/-- Every other line is cut behind its first word, which may be empty. -/
theorem kshExec_cut_word (m : Machine) (t : Terminal) (h : Split 32 word k rest)
    (hword : NulFree word) (hrest : NulFree rest)
    (hhead : (word ++ (List.replicate k 32 ++ rest)).head? ≠ some 32) (mem : List UInt8) :
    ∃ argsStart mem',
      kshExec m t (word ++ (List.replicate k 32 ++ (rest ++ 0 :: mem))) =
        kshDispatch m t argsStart (word ++ 0 :: mem') ∧
      cText (kshArgs argsStart (word ++ 0 :: mem')) = rest := by
  have hnext := strfnl_split (by decide) h hword hrest mem
  rcases split_behind h mem with ⟨c, mem', hbehind, -⟩
  by_cases hne : word = []
  · -- The line is empty: the position before it is returned, and the NUL is written over its own.
    subst hne
    have hempty : List.replicate k (32 : UInt8) ++ rest = [] := by
      by_contra hfull
      exact h.word_ne_nil hfull hhead rfl
    rcases List.append_eq_nil_iff.1 hempty with ⟨hspaces, hnil⟩
    subst hnil
    have hk : k = 0 := by simpa using hspaces
    subst hk
    have hnone : cText (cstr "") = [] := by decide
    exact ⟨none, mem, kshExec_of_cut m t [] hnext rfl, hnone⟩
  · have hend := strfle_split h hword hne mem
    have hline : CommandLine word k rest :=
      ⟨hne, lexeme_of_free hword h.word_free, hrest, h.rest_head, h.rest_nil⟩
    have hargs := hline.args hbehind
    rw [hbehind] at hnext hend ⊢
    exact ⟨_, mem', kshExec_of_cut m t word hnext hend, hargs⟩

/-- Every line is looked up by its name, and a command gets its arguments. -/
theorem kshExec_cut (m : Machine) (t : Terminal) (hfree : NulFree line) (mem : List UInt8) :
    NulFree (commandName line) ∧ ∃ argsStart mem',
      kshExec m t (line ++ 0 :: mem) =
        kshDispatch m t argsStart (commandName line ++ 0 :: mem') ∧
      (commandName line ≠ [32] →
        cText (kshArgs argsStart (commandName line ++ 0 :: mem')) = commandArgs line) := by
  by_cases hhead : line.head? = some 32
  · cases line with
    | nil =>
        cases hhead
    | cons c text =>
        obtain rfl : c = 32 := by simpa using hhead
        rcases kshExec_cut_space m t hfree mem with ⟨argsStart, mem', hexec⟩
        have hspace : NulFree [32] := by decide
        exact ⟨hspace, argsStart, mem', hexec, fun hne => absurd (commandName_space text) hne⟩
  · rcases exists_split 32 line with ⟨word, k, rest, rfl, h⟩
    have hword := hfree.of_append.1
    obtain ⟨argsStart, mem', hexec, hargs⟩ :=
      kshExec_cut_word m t h hword hfree.of_append.2.of_append.2 hhead mem
    rw [commandName_split h hhead, commandArgs_split h]
    simp only [List.append_assoc]
    exact ⟨hword, argsStart, mem', hexec, fun _ => hargs⟩

/-- `ksh_exec` has the effect of the line on every terminal, and returns exactly when the effect is
not a panic. -/
theorem kshExec_effect (m : Machine) (t : Terminal) (line mem : List UInt8)
    (hfree : NulFree line) :
    ∃ e, kshExec m t (line ++ 0 :: mem) = some e ∧
      e.terminal = (commandEffect m line).apply t ∧
      (e.result = none ↔ (commandEffect m line).returns = false) := by
  rcases kshExec_cut m t hfree mem with ⟨hname, argsStart, mem', hexec, hargs⟩
  have hdispatch := kshDispatch_eq hname m t argsStart mem'
  simp only at hdispatch
  rw [hexec, hdispatch, commandEffect]
  cases hfind : kshHandlers.find? (fun cur => commandName line = bytes cur.name) with
  | none =>
      refine ⟨_, rfl, ?_, by simp [Effect.returns]⟩
      exact kprintf_pieces t
        [.text (bytes "Unknown command: "), .str (commandName line), .text [10]] rfl
  | some cur =>
      -- No command is called like a space.
      have hspace : commandName line ≠ [32] := by
        intro hEq
        have hnone :
            kshHandlers.find? (fun cur => ([32] : List UInt8) = bytes cur.name) = none := by
          decide
        rw [hEq, hnone] at hfind
        cases hfind
      have hcall := call_effect m t (kshArgs argsStart (commandName line ++ 0 :: mem')) cur.func
      rw [hargs hspace] at hcall
      refine ⟨_, rfl, hcall.1, ?_⟩
      simp only [hcall.2]
      cases (cur.func.effect m (commandArgs line)).returns <;> simp

/-- A terminated string, and what lies behind it. -/
theorem exists_cText {mem : List UInt8} (hnul : 0 ∈ mem) :
    NulFree (cText mem) ∧ ∃ rest, mem = cText mem ++ 0 :: rest := by
  rcases List.eq_append_cons_of_mem hnul with ⟨text, rest, rfl, hfirst⟩
  rw [cText_nul hfirst]
  exact ⟨hfirst, rest, rfl⟩

/-- `ksh_exec` on any memory with a terminator in it, and on every terminal: it goes wrong nowhere,
prints what the command of the line prints, and returns unless that panics.  One byte of the line or
its terminator becomes 0, and the memory behind is neither changed nor makes a difference. -/
theorem kshExec_prints (m : Machine) (t : Terminal) (mem : List UInt8) (hnul : 0 ∈ mem) :
    ∃ e, kshExec m t mem = some e ∧
      e.terminal = (commandEffect m (cText mem)).apply t ∧
      (e.result = none ↔ (commandEffect m (cText mem)).returns = false) ∧
      ∃ i, i ≤ (cText mem).length ∧ e.cmd = mem.set i 0 ∧
        ∀ rest, kshExec m t (cText mem ++ 0 :: rest) =
          some { e with cmd := (cText mem ++ 0 :: rest).set i 0 } := by
  rcases exists_cText hnul with ⟨hfree, rest, hmem⟩
  obtain ⟨e, hexec, hterminal, hresult⟩ := kshExec_effect m t (cText mem) rest hfree
  obtain ⟨i, -, e₀, -, -, -, hi, hcut, -, hframe⟩ := kshExec_frame m t hfree
  have hset : ∀ rest, e₀.cmd ++ rest = (cText mem ++ 0 :: rest).set i 0 := by
    intro rest
    have hbehind : cText mem ++ 0 :: rest = cText mem ++ [0] ++ rest := by simp
    have hin : i < (cText mem ++ [0]).length := by
      rw [List.length_append, List.length_singleton]
      omega
    rw [hcut, hbehind]
    exact (List.set_append_left i 0 hin).symm
  have hsame : { e₀ with cmd := e₀.cmd ++ rest } = e :=
    Option.some.inj ((hframe rest).symm.trans hexec)
  rw [← hmem] at hexec
  refine ⟨e, hexec, hterminal, hresult, i, hi, ?_, fun rest' => ?_⟩
  · rw [← hsame, hmem]
    exact hset rest
  · rw [hframe, hset, ← hsame]

/-- The command `panic`, with two spaces before its argument, and bytes behind the line. -/
theorem kshExec_prints_panic :
    let m : Machine := { ticks := 0, cpuid := fun _ => ⟨0, 0, 0, 0⟩, stack := [] }
    let t := started vga640 (fun _ => 0) defTextCol
    ∃ e, kshExec m t (bytes "panic  now" ++ [0, 1, 2]) = some e ∧
      e.terminal = (Effect.panics (bytes "now\n")).apply t ∧ e.result = none ∧
      ∃ i, i ≤ 10 ∧ e.cmd = (bytes "panic  now" ++ [0, 1, 2]).set i 0 ∧
        ∀ rest, kshExec m t (bytes "panic  now" ++ 0 :: rest) =
          some { e with cmd := (bytes "panic  now" ++ 0 :: rest).set i 0 } := by
  intro m t
  have hline : cText (bytes "panic  now" ++ [0, 1, 2]) = bytes "panic  now" := by decide +kernel
  have heffect : commandEffect m (bytes "panic  now") = .panics (bytes "now\n") := by
    decide +kernel
  have hexec := kshExec_prints m t (bytes "panic  now" ++ [0, 1, 2]) (by decide)
  rw [hline, heffect] at hexec
  rcases hexec with ⟨e, hcall, hterminal, hresult, i, hi, hframe⟩
  exact ⟨e, hcall, hterminal, hresult.2 rfl, i, hi, hframe⟩

end

/-! ## No backspaces -/

def Effect.text : Effect → List UInt8
  | .prints text => text
  | .clears => []
  | .panics text => text

/-- The strings of the CPU have no backspace in them. -/
def Machine.Plain (m : Machine) : Prop :=
  (8 : UInt8) ∉ vendorText m ∧ (8 : UInt8) ∉ brandText m

theorem kprintUint_plain (n : UInt64) : (8 : UInt8) ∉ kprintUint n 10 := by
  have hnone : digitValue 8 = none := by decide
  have hbase : (10 : UInt8).toNat = 10 := by decide
  unfold kprintUint
  split
  · decide
  · rw [List.mem_reverse, hbase, digitBuffer_eq_digits (by decide), List.mem_map]
    rintro ⟨d, hd, hEq⟩
    have hlt : d < 10 := Nat.digits_lt_base (by decide) hd
    have hvalue := digitValue_dtoa d (by omega)
    rw [hEq, hnone] at hvalue
    cases hvalue

theorem uptimeText_plain (m : Machine) : (8 : UInt8) ∉ uptimeText m := by
  have hup : (8 : UInt8) ∉ bytes "up " := by decide
  have hcolon : (8 : UInt8) ∉ bytes ":" := by decide
  simp [uptimeText, hup, hcolon, kprintUint_plain]

theorem features_plain (m : Machine) : (8 : UInt8) ∉ (features m).flatMap featureText := by
  -- The names are fixed, and the signs are `+` and `-`.
  have hnames : ∀ name ∈ ["SSE3", "SSE4.1", "SSE4.2", "APIC", "AVX", "AVX2"],
      ∀ b, (8 : UInt8) ∉ featureText (b, featureName name) := by
    decide +kernel
  simp only [features, List.flatMap_cons, List.flatMap_nil, List.append_nil, List.mem_append,
    not_or]
  exact ⟨hnames _ (by simp) _, hnames _ (by simp) _, hnames _ (by simp) _, hnames _ (by simp) _,
    hnames _ (by simp) _, hnames _ (by simp) _⟩

theorem cpuidText_plain {m : Machine} (hm : m.Plain) : (8 : UInt8) ∉ cpuidText m := by
  have hvendor : (8 : UInt8) ∉ bytes "CPU vendor: " := by decide
  have hbrand : (8 : UInt8) ∉ bytes "CPU model: " := by decide
  have hfeatures : (8 : UInt8) ∉ bytes "Features: " := by decide
  simp [cpuidText, hvendor, hbrand, hfeatures, hm.1, hm.2, features_plain m]

theorem effect_plain {m : Machine} (hm : m.Plain) {args : List UInt8} (hargs : (8 : UInt8) ∉ args)
    (h : Handler) : (8 : UInt8) ∉ (h.effect m args).text := by
  cases h with
  | uptime =>
      exact uptimeText_plain m
  | cpuid =>
      exact cpuidText_plain hm
  | clear =>
      exact List.not_mem_nil
  | uname =>
      have huname : (8 : UInt8) ∉ unameText := by decide +kernel
      exact huname
  | panic | echo =>
      simpa [Handler.effect, Effect.text] using hargs
  | help =>
      have hhelp : (8 : UInt8) ∉ kshHandlers.flatMap helpLine := by decide +kernel
      exact hhelp

/-- What a line prints has no backspace if the line has none. -/
theorem commandEffect_plain {m : Machine} (hm : m.Plain) {line : List UInt8}
    (hline : (8 : UInt8) ∉ line) : (8 : UInt8) ∉ (commandEffect m line).text := by
  have hargs : (8 : UInt8) ∉ commandArgs line := fun hmem =>
    hline ((List.dropWhile_suffix _).subset ((List.dropWhile_suffix _).subset hmem))
  have hname : (8 : UInt8) ∉ commandName line := by
    unfold commandName
    split
    · decide
    · exact fun hmem => hline ((List.takeWhile_prefix _).subset hmem)
  unfold commandEffect
  split
  · exact effect_plain hm hargs _
  · have hreport : (8 : UInt8) ∉ bytes "Unknown command: " := by decide
    simpa [Effect.text, hreport] using hname

end Feudos
