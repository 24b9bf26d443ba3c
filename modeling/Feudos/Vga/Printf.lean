import Feudos.Library.Run
import Feudos.Util.Text
import Feudos.Vga.Caret

/-!
# Formatted output (`kvprintf` and what it calls)

`kvprintf` sends characters to `vga_putc` one by one.  The model computes the list of the
characters it sends, each with the colour at that moment, and `kprintf` puts them on a terminal.

The format string is the memory from `msg` on, so a scan that runs past the terminator finds what
lies behind it; `Stop.overrun` says that the given memory was not enough.
-/

namespace Feudos
namespace Vga

open GuardedRun

/-! ## Numbers -/

/-- `dtoa`. -/
def dtoa (digit : UInt8) : UInt8 :=
  if signedChar digit ≤ 9 then 48 + digit
  else if signedChar digit ≤ 15 then 65 + (digit - 10)
  else 0

/-- The digit buffer of `kprint_uint` after its first loop, least significant digit first.  The
loop only ends for bases from 2 on. -/
def digitBuffer (base n : Nat) : List UInt8 :=
  if _h : n ≠ 0 ∧ 2 ≤ base then
    dtoa (UInt8.ofNat (n % base)) :: digitBuffer base (n / base)
  else
    []
termination_by n
decreasing_by
  exact Nat.div_lt_self (Nat.pos_of_ne_zero _h.1) _h.2

/-- The characters of `kprint_uint`. -/
def kprintUint (n : UInt64) (base : UInt8) : List UInt8 :=
  if n = 0 then [48] else (digitBuffer base.toNat n.toNat).reverse

/-- The characters of `kprint_int`. -/
def kprintInt (num : Int64) (base : UInt8) : List UInt8 :=
  if num < 0 then 45 :: kprintUint (0 - num.toUInt64) base
  else kprintUint num.toUInt64 base

/-! ## Specifiers -/

/-- A variable argument, by the type it is passed with.  A string is its bytes before the
terminator. -/
inductive VaArg
  | int (v : Int32)
  | uint (v : UInt32)
  | long (v : Int64)
  | ulong (v : UInt64)
  | str (text : List UInt8)
  deriving DecidableEq

/-- What the scan does for one complete specifier: the characters printed, the arguments left and
the colour from now on; `none` when the argument asked for is not there. -/
abbrev Converted := Option (List (UInt8 × UInt8) × List VaArg × UInt8)

/-- Characters printed in one colour, as `vga_print` does. -/
def inColour (color : UInt8) (text : List UInt8) : List (UInt8 × UInt8) :=
  text.map (fun c => (c, color))

theorem inColour_append (color : UInt8) (text text' : List UInt8) :
    inColour color (text ++ text') = inColour color text ++ inColour color text' :=
  List.map_append

/-- The `switch` on the character after `%`, but for `l`. -/
def specifier (spec : UInt8) (args : List VaArg) (textColor : UInt8) : Converted :=
  if spec = 100 then
    match args with
    | .int v :: args => some (inColour textColor (kprintInt v.toInt64 10), args, textColor)
    | _ => none
  else if spec = 117 then
    match args with
    | .uint v :: args => some (inColour textColor (kprintUint v.toUInt64 10), args, textColor)
    | _ => none
  else if spec = 99 then
    match args with
    | .int v :: args => some (inColour textColor [intToChar v], args, textColor)
    | _ => none
  else if spec = 115 then
    match args with
    | .str text :: args => some (inColour textColor text, args, textColor)
    | _ => none
  else if spec = 88 then
    match args with
    | .ulong v :: args => some (inColour textColor (kprintUint v 16), args, textColor)
    | _ => none
  else if spec = 107 then
    match args with
    | .int v :: args => some ([], args, intToChar v)
    | _ => none
  else
    some (inColour textColor [37, spec], args, textColor)

/-- The `switch` on the character after `%l`. -/
def longSpecifier (ahead : UInt8) (args : List VaArg) (textColor : UInt8) : Converted :=
  if ahead = 100 then
    match args with
    | .long v :: args => some (inColour textColor (kprintInt v 10), args, textColor)
    | _ => none
  else if ahead = 117 then
    match args with
    | .ulong v :: args => some (inColour textColor (kprintUint v 10), args, textColor)
    | _ => none
  else
    some (inColour textColor [37, 108, ahead], args, textColor)

/-! ## The scan -/

/-- How a scan of the format ends: at the terminator, for want of an argument, or by running out
of the given memory. -/
inductive Stop
  | returned
  | noArgument
  | overrun
  deriving DecidableEq

/-- The characters sent to `vga_putc`, the arguments not consumed, the value of `text_color` at
the end, and how the scan ended. -/
structure Formatted where
  out : List (UInt8 × UInt8)
  args : List VaArg
  textColor : UInt8
  stop : Stop

def Formatted.prepend (out : List (UInt8 × UInt8)) (r : Formatted) : Formatted :=
  { r with out := out ++ r.out }

/-- `kvprintf`, from the character that `msg` starts with. -/
def kvprintf : List UInt8 → List VaArg → UInt8 → Formatted
  | [], args, textColor => { out := [], args := args, textColor := textColor, stop := .overrun }
  | c :: msg, args, textColor =>
      if c = 0 then
        { out := [], args := args, textColor := textColor, stop := .returned }
      -- Literal characters, up to the next percent sign.
      else if c ≠ 37 then
        (kvprintf msg args textColor).prepend [(c, textColor)]
      else
        match msg with
        | [] => { out := [], args := args, textColor := textColor, stop := .overrun }
        | spec :: msg =>
            -- A percent sign at the end of the format prints nothing.
            if spec = 0 then
              { out := [], args := args, textColor := textColor, stop := .returned }
            else if spec = 108 then
              match msg with
              | [] => { out := [], args := args, textColor := textColor, stop := .overrun }
              | ahead :: msg =>
                  -- The character after `l` is consumed unseen: it may be the terminator.
                  match longSpecifier ahead args textColor with
                  | none =>
                      { out := [], args := args, textColor := textColor, stop := .noArgument }
                  | some (out, args, textColor) => (kvprintf msg args textColor).prepend out
            else
              match specifier spec args textColor with
              | none =>
                  { out := [], args := args, textColor := textColor, stop := .noArgument }
              | some (out, args, textColor) => (kvprintf msg args textColor).prepend out

/-- `kprintf` on a terminal. -/
def kprintf (t : Terminal) (msg : List UInt8) (args : List VaArg) : Terminal :=
  let r := kvprintf msg args t.textColor
  vgaChangeTextColor (r.out.foldl (fun t x => vgaPutc t x.1 x.2) t) r.textColor

/-! ## The formats used by the driver and the shell -/

theorem kvprintf_cons {c : UInt8} (hnul : c ≠ 0) (hpercent : c ≠ 37) (msg : List UInt8)
    (args : List VaArg) (textColor : UInt8) :
    kvprintf (c :: msg) args textColor =
      (kvprintf msg args textColor).prepend [(c, textColor)] := by
  rw [kvprintf.eq_def]
  simp [hnul, hpercent]

/-- Literal characters are sent as they are. -/
theorem kvprintf_literal (text msg : List UInt8) (args : List VaArg) (textColor : UInt8)
    (htext : ∀ c ∈ text, c ≠ 0 ∧ c ≠ 37) :
    kvprintf (text ++ msg) args textColor =
      (kvprintf msg args textColor).prepend (inColour textColor text) := by
  induction text with
  | nil =>
      rfl
  | cons c text ih =>
      have hc := htext c (List.mem_cons_self ..)
      have hrest := ih (fun d hd => htext d (List.mem_cons_of_mem _ hd))
      calc
        kvprintf (c :: (text ++ msg)) args textColor
            = (kvprintf (text ++ msg) args textColor).prepend [(c, textColor)] :=
              kvprintf_cons hc.1 hc.2 (text ++ msg) args textColor
        _ = ((kvprintf msg args textColor).prepend (inColour textColor text)).prepend
              [(c, textColor)] := by rw [hrest]
        _ = (kvprintf msg args textColor).prepend (inColour textColor (c :: text)) := rfl

theorem kvprintf_nul (msg : List UInt8) (args : List VaArg) (textColor : UInt8) :
    kvprintf (0 :: msg) args textColor =
      { out := [], args := args, textColor := textColor, stop := .returned } := by
  rw [kvprintf.eq_def]
  simp

theorem kvprintf_specifier {spec : UInt8} (hnul : spec ≠ 0) (hlong : spec ≠ 108)
    (msg : List UInt8) (args : List VaArg) (textColor : UInt8) :
    kvprintf (37 :: spec :: msg) args textColor =
      match specifier spec args textColor with
      | none => { out := [], args := args, textColor := textColor, stop := .noArgument }
      | some (out, args, textColor) => (kvprintf msg args textColor).prepend out := by
  rw [kvprintf.eq_def]
  simp [hnul, hlong]

theorem kvprintf_long (ahead : UInt8) (msg : List UInt8) (args : List VaArg)
    (textColor : UInt8) :
    kvprintf (37 :: 108 :: ahead :: msg) args textColor =
      match longSpecifier ahead args textColor with
      | none => { out := [], args := args, textColor := textColor, stop := .noArgument }
      | some (out, args, textColor) => (kvprintf msg args textColor).prepend out := by
  rw [kvprintf.eq_def]
  simp

/-- A literal format prints itself. -/
theorem kvprintf_text (text : List UInt8) (args : List VaArg) (textColor : UInt8)
    (htext : ∀ c ∈ text, c ≠ 0 ∧ c ≠ 37) :
    kvprintf (text ++ [0]) args textColor =
      { out := inColour textColor text, args := args, textColor := textColor,
        stop := .returned } := by
  rw [kvprintf_literal text [0] args textColor htext, kvprintf_nul]
  simp [Formatted.prepend]

theorem vgaChangeTextColor_self {t : Terminal} {color : UInt8} (h : t.textColor = color) :
    vgaChangeTextColor t color = t := by
  subst h
  rfl

/-- `kprintf` puts what the scan sends, when it leaves the colour as it is. -/
theorem kprintf_of_kvprintf {t : Terminal} {msg : List UInt8} {args rest : List VaArg}
    {text : List UInt8} {stop : Stop}
    (h : kvprintf msg args t.textColor =
      { out := inColour t.textColor text, args := rest, textColor := t.textColor, stop := stop }) :
    kprintf t msg args = text.foldl (fun t' c => vgaPutc t' c t.textColor) t := by
  -- The colour at the end is the one at the start, so setting it changes nothing.
  have hkeep : (text.foldl (fun t' c => vgaPutc t' c t.textColor) t).textColor = t.textColor := by
    refine foldl_invariant (I := fun t' : Terminal => t'.textColor = t.textColor) ?_ rfl
    intro t' c ht'
    rw [vgaPutc_textColor, ht']
  simp only [kprintf, h, inColour, List.foldl_map]
  exact vgaChangeTextColor_self hkeep

/-- A literal is put character by character in the current colour. -/
theorem kprintf_text (t : Terminal) (text : List UInt8) (args : List VaArg)
    (htext : ∀ c ∈ text, c ≠ 0 ∧ c ≠ 37) :
    kprintf t (text ++ [0]) args = text.foldl (fun t' c => vgaPutc t' c t.textColor) t :=
  kprintf_of_kvprintf (kvprintf_text text args t.textColor htext)

/-- A string between two literals. -/
theorem kprintf_str (t : Terminal) (before text after : List UInt8)
    (hbefore : ∀ c ∈ before, c ≠ 0 ∧ c ≠ 37) (hafter : ∀ c ∈ after, c ≠ 0 ∧ c ≠ 37) :
    kprintf t (before ++ 37 :: 115 :: (after ++ [0])) [.str text] =
      (before ++ (text ++ after)).foldl (fun t' c => vgaPutc t' c t.textColor) t := by
  -- `%s` sends the string, and the scan goes on behind it with no argument left.
  have hspec : specifier 115 [.str text] t.textColor =
      some (inColour t.textColor text, [], t.textColor) := by
    simp [specifier]
  have htail : kvprintf (37 :: 115 :: (after ++ [0])) [.str text] t.textColor =
      { out := inColour t.textColor (text ++ after), args := [], textColor := t.textColor,
        stop := .returned } := by
    rw [kvprintf_specifier (by decide) (by decide), hspec]
    simp only [kvprintf_text after [] t.textColor hafter, Formatted.prepend, inColour_append]
  have hall := kvprintf_literal before (37 :: 115 :: (after ++ [0])) [.str text] t.textColor hbefore
  rw [htail, Formatted.prepend, ← inColour_append] at hall
  exact kprintf_of_kvprintf hall

/-- `kprintf("%c", c)` is `vga_putc` in the current colour. -/
theorem kprintf_char (t : Terminal) (c : UInt8) :
    kprintf t (cstr "%c") [.int (charToInt c)] = vgaPutc t c t.textColor := by
  have hfmt : cstr "%c" = 37 :: 99 :: [0] := by decide
  have hspec : specifier 99 [.int (charToInt c)] t.textColor =
      some ([(c, t.textColor)], [], t.textColor) := by
    simp [specifier, inColour]
  have hrun : kvprintf (cstr "%c") [.int (charToInt c)] t.textColor =
      { out := [(c, t.textColor)], args := [], textColor := t.textColor, stop := .returned } := by
    rw [hfmt, kvprintf_specifier (by decide) (by decide), hspec]
    simp [kvprintf_nul, Formatted.prepend]
  simp only [kprintf, hrun, List.foldl_cons, List.foldl_nil]
  exact vgaChangeTextColor_self (vgaPutc_textColor t c t.textColor)

end Vga
end Feudos
