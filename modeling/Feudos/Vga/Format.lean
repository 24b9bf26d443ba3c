import Feudos.Util.Str
import Feudos.Vga.Printf

/-!
# Formats

A format is a sequence of *directives*: literal characters, `%` and a character, `%l` and a
character.  It may end in the middle of one.

- `parse`                 : the directives of a format, and how it ends;
- `asks`                  : the arguments that the directives ask for;
- `kvprintf_directives`   : what `kvprintf` does for complete directives, whatever comes behind;
- `staysInside_iff`       : the scan stays in the string, unless the format ends in `%l`;
- `kvprintf_append`       : formats can be printed one after the other.
-/

namespace Feudos
namespace Vga

/-! ## Directives -/

inductive Directive
  | literal (c : UInt8)
  | plain (spec : UInt8)
  | long (ahead : UInt8)
  deriving DecidableEq

/-- How a format ends: with its last directive, or after `%`, or after `%l`. -/
inductive Ending
  | complete
  | percent
  | percentL
  deriving DecidableEq

/-- The directives of a format and its ending. -/
def parse : List UInt8 → List Directive × Ending
  | [] => ([], .complete)
  | c :: text =>
      if c ≠ 37 then
        (.literal c :: (parse text).1, (parse text).2)
      else
        match text with
        | [] => ([], .percent)
        | spec :: text =>
            if spec ≠ 108 then
              (.plain spec :: (parse text).1, (parse text).2)
            else
              match text with
              | [] => ([], .percentL)
              | ahead :: text => (.long ahead :: (parse text).1, (parse text).2)

def Directive.text : Directive → List UInt8
  | .literal c => [c]
  | .plain spec => [37, spec]
  | .long ahead => [37, 108, ahead]

def Ending.text : Ending → List UInt8
  | .complete => []
  | .percent => [37]
  | .percentL => [37, 108]

/-- The directives that `parse` finds in a string. -/
def Directive.Proper : Directive → Prop
  | .literal c => c ≠ 0 ∧ c ≠ 37
  | .plain spec => spec ≠ 0 ∧ spec ≠ 108
  | .long _ => True

theorem parse_text (text : List UInt8) :
    (parse text).1.flatMap Directive.text ++ (parse text).2.text = text := by
  induction text using parse.induct with
  | case1 =>
      rfl
  | case2 c text hc ih =>
      rw [parse.eq_def]
      simp [hc, Directive.text, ih]
  | case3 c hc =>
      rw [parse.eq_def]
      simp [Classical.not_not.1 hc, Ending.text]
  | case4 c hc spec text hspec ih =>
      rw [parse.eq_def]
      simp [Classical.not_not.1 hc, hspec, Directive.text, ih]
  | case5 c hc spec hspec =>
      rw [parse.eq_def]
      simp [Classical.not_not.1 hc, Classical.not_not.1 hspec, Ending.text]
  | case6 c hc spec hspec ahead text ih =>
      rw [parse.eq_def]
      simp [Classical.not_not.1 hc, Classical.not_not.1 hspec, Directive.text, ih]

theorem parse_proper {text : List UInt8} (hnul : NulFree text) :
    ∀ d ∈ (parse text).1, d.Proper := by
  induction text using parse.induct with
  | case1 =>
      simp [parse]
  | case2 c text hc ih =>
      rw [parse.eq_def]
      simp only [NulFree, List.mem_cons, not_or] at hnul
      simpa [hc, Directive.Proper] using ⟨fun h => hnul.1 h.symm, ih hnul.2⟩
  | case3 c hc =>
      rw [parse.eq_def]
      simp [Classical.not_not.1 hc]
  | case4 c hc spec text hspec ih =>
      rw [parse.eq_def]
      simp only [NulFree, List.mem_cons, not_or] at hnul
      simpa [Classical.not_not.1 hc, hspec, Directive.Proper] using
        ⟨fun h => hnul.2.1 h.symm, ih hnul.2.2⟩
  | case5 c hc spec hspec =>
      rw [parse.eq_def]
      simp [Classical.not_not.1 hc, Classical.not_not.1 hspec]
  | case6 c hc spec hspec ahead text ih =>
      rw [parse.eq_def]
      simp only [NulFree, List.mem_cons, not_or] at hnul
      simpa [Classical.not_not.1 hc, Classical.not_not.1 hspec, Directive.Proper] using
        ih hnul.2.2.2

/-! ## Arguments -/

/-- The types of arguments. -/
inductive ArgKind
  | int
  | uint
  | long
  | ulong
  | str
  deriving DecidableEq

def VaArg.kind : VaArg → ArgKind
  | .int _ => .int
  | .uint _ => .uint
  | .long _ => .long
  | .ulong _ => .ulong
  | .str _ => .str

/-- The arguments that a directive asks for: those of `d`, `u`, `c`, `s`, `X`, `k`, `ld` and
`lu`. -/
def Directive.asks : Directive → List ArgKind
  | .literal _ => []
  | .plain spec =>
      if spec = 100 ∨ spec = 99 ∨ spec = 107 then [.int]
      else if spec = 117 then [.uint]
      else if spec = 115 then [.str]
      else if spec = 88 then [.ulong]
      else []
  | .long ahead =>
      if ahead = 100 then [.long]
      else if ahead = 117 then [.ulong]
      else []

/-- The arguments that a format asks for. -/
def asks (text : List UInt8) : List ArgKind :=
  (parse text).1.flatMap Directive.asks

/-- What the scan does for one directive. -/
def Directive.run (d : Directive) (args : List VaArg) (color : UInt8) : Converted :=
  match d with
  | .literal c => some ([(c, color)], args, color)
  | .plain spec => specifier spec args color
  | .long ahead => longSpecifier ahead args color

/-- A single argument of a given type. -/
theorem eq_of_kind {a : List VaArg} {k : ArgKind} (h : a.map VaArg.kind = [k]) :
    match k with
    | .int => ∃ v, a = [.int v]
    | .uint => ∃ v, a = [.uint v]
    | .long => ∃ v, a = [.long v]
    | .ulong => ∃ v, a = [.ulong v]
    | .str => ∃ text, a = [.str text] := by
  obtain ⟨x, rfl, rfl⟩ := List.map_eq_singleton_iff.1 h
  cases x with
  | _ v =>
      exact ⟨v, rfl⟩

/-- With the arguments it asks for a directive runs, and leaves those behind them alone. -/
theorem run_asks {d : Directive} {a : List VaArg} (ha : a.map VaArg.kind = d.asks)
    (color : UInt8) :
    ∃ out color', ∀ rest, d.run (a ++ rest) color = some (out, rest, color') := by
  cases d with
  | literal c =>
      obtain rfl : a = [] := by simpa [Directive.asks] using ha
      exact ⟨[(c, color)], color, fun rest => rfl⟩
  | plain spec =>
      -- The specifiers in the order of `asks`; the last case is an unknown one.
      simp only [Directive.asks] at ha
      split_ifs at ha with hint huint hstr hulong
      · obtain ⟨v, rfl⟩ := eq_of_kind ha
        rcases hint with rfl | rfl | rfl
        · exact ⟨inColour color (kprintInt v.toInt64 10), color, fun rest => rfl⟩
        · exact ⟨inColour color [intToChar v], color, fun rest => rfl⟩
        · exact ⟨[], intToChar v, fun rest => rfl⟩
      · obtain ⟨v, rfl⟩ := eq_of_kind ha
        subst huint
        exact ⟨inColour color (kprintUint v.toUInt64 10), color, fun rest => rfl⟩
      · obtain ⟨text, rfl⟩ := eq_of_kind ha
        subst hstr
        exact ⟨inColour color text, color, fun rest => rfl⟩
      · obtain ⟨v, rfl⟩ := eq_of_kind ha
        subst hulong
        exact ⟨inColour color (kprintUint v 16), color, fun rest => rfl⟩
      · obtain rfl : a = [] := by simpa using ha
        refine ⟨inColour color [37, spec], color, fun rest => ?_⟩
        simp_all [Directive.run, specifier]
  | long ahead =>
      simp only [Directive.asks] at ha
      split_ifs at ha with hlong hulong
      · obtain ⟨v, rfl⟩ := eq_of_kind ha
        subst hlong
        exact ⟨inColour color (kprintInt v 10), color, fun rest => rfl⟩
      · obtain ⟨v, rfl⟩ := eq_of_kind ha
        subst hulong
        exact ⟨inColour color (kprintUint v 10), color, fun rest => rfl⟩
      · obtain rfl : a = [] := by simpa using ha
        refine ⟨inColour color [37, 108, ahead], color, fun rest => ?_⟩
        simp [Directive.run, longSpecifier, hlong, hulong]

/-! ## The scan, directive by directive -/

/-- The scan of a format that starts with a directive. -/
theorem kvprintf_directive {d : Directive} (hd : d.Proper) (msg : List UInt8)
    (args : List VaArg) (color : UInt8) :
    kvprintf (d.text ++ msg) args color =
      match d.run args color with
      | none => { out := [], args := args, textColor := color, stop := .noArgument }
      | some (out, args, color) => (kvprintf msg args color).prepend out := by
  cases d with
  | literal c =>
      exact kvprintf_cons hd.1 hd.2 msg args color
  | plain spec =>
      exact kvprintf_specifier hd.1 hd.2 msg args color
  | long ahead =>
      exact kvprintf_long ahead msg args color

theorem prepend_prepend (out out' : List (UInt8 × UInt8)) (r : Formatted) :
    (r.prepend out').prepend out = r.prepend (out ++ out') := by
  simp [Formatted.prepend]

/-- Complete directives print the same, consume the same and leave the same colour whatever comes
behind them. -/
theorem kvprintf_directives {ds : List Directive} {a : List VaArg}
    (hds : ∀ d ∈ ds, d.Proper) (ha : a.map VaArg.kind = ds.flatMap Directive.asks)
    (color : UInt8) :
    ∃ out color', ∀ msg rest, kvprintf (ds.flatMap Directive.text ++ msg) (a ++ rest) color =
      (kvprintf msg rest color').prepend out := by
  induction ds generalizing a color with
  | nil =>
      obtain rfl : a = [] := by simpa using ha
      exact ⟨[], color, fun msg rest => rfl⟩
  | cons d ds ih =>
      rw [List.flatMap_cons] at ha
      -- The arguments of the first directive, and those of the others.
      obtain ⟨a₁, a₂, rfl, ha₁, ha₂⟩ := List.map_eq_append_iff.1 ha
      obtain ⟨out₁, color₁, hrun⟩ := run_asks ha₁ color
      obtain ⟨out₂, color₂, hrest⟩ :=
        ih (fun d' hd' => hds d' (List.mem_cons_of_mem _ hd')) ha₂ color₁
      refine ⟨out₁ ++ out₂, color₂, fun msg rest => ?_⟩
      calc
        kvprintf ((d :: ds).flatMap Directive.text ++ msg) (a₁ ++ a₂ ++ rest) color
            = kvprintf (d.text ++ (ds.flatMap Directive.text ++ msg)) (a₁ ++ (a₂ ++ rest)) color :=
              by simp only [List.flatMap_cons, List.append_assoc]
        _ = (kvprintf (ds.flatMap Directive.text ++ msg) (a₂ ++ rest) color₁).prepend out₁ := by
              rw [kvprintf_directive (hds d (List.mem_cons_self ..)), hrun]
        _ = (kvprintf msg rest color₂).prepend (out₁ ++ out₂) := by
              rw [hrest, prepend_prepend]

/-! ## The end of a format -/

/-- The scan of a terminated format returns without reading behind the terminator. -/
def StaysInside (text : List UInt8) (args : List VaArg) (color : UInt8) : Prop :=
  (kvprintf (text ++ [0]) args color).stop = .returned

instance (text : List UInt8) (args : List VaArg) (color : UInt8) :
    Decidable (StaysInside text args color) :=
  inferInstanceAs (Decidable (_ = _))

/-- The terminator is looked at after a directive and after `%`, but not after `%l`. -/
theorem kvprintf_ending (e : Ending) (args : List VaArg) (color : UInt8) :
    (kvprintf (e.text ++ [0]) args color).stop = .returned ↔ e ≠ .percentL := by
  cases e with
  | complete =>
      simp [Ending.text, kvprintf_nul]
  | percent =>
      simp [Ending.text, kvprintf]
  | percentL =>
      -- The terminator is the character after `l`, and the scan goes on behind it.
      have hahead : longSpecifier 0 args color =
          some (inColour color [37, 108, 0], args, color) := rfl
      simp [Ending.text, kvprintf_long, hahead, kvprintf, Formatted.prepend]

/-- A format that is given what it asks for is scanned inside the string, unless it ends in
`%l`. -/
theorem staysInside_iff (text : List UInt8) (args : List VaArg) (color : UInt8)
    (hnul : NulFree text) (hargs : asks text <+: args.map VaArg.kind) :
    StaysInside text args color ↔ (parse text).2 ≠ .percentL := by
  -- The directives run, whatever the ending is; then the ending decides.
  obtain ⟨kinds, hkinds⟩ := hargs
  obtain ⟨a, rest, rfl, ha, -⟩ := List.map_eq_append_iff.1 hkinds.symm
  obtain ⟨out, color', hscan⟩ := kvprintf_directives (parse_proper hnul) ha color
  have htext : text ++ [0] =
      (parse text).1.flatMap Directive.text ++ ((parse text).2.text ++ [0]) := by
    rw [← List.append_assoc, parse_text]
  calc
    StaysInside text (a ++ rest) color
        ↔ (kvprintf ((parse text).2.text ++ [0]) rest color').stop = .returned := by
          rw [StaysInside, htext, hscan]
          exact Iff.rfl
    _ ↔ (parse text).2 ≠ .percentL := kvprintf_ending (parse text).2 rest color'

theorem staysInside_iff_percent :
    StaysInside (bytes "%c%") [.int 65] 7 ↔ (parse (bytes "%c%")).2 ≠ .percentL :=
  staysInside_iff (bytes "%c%") [.int 65] 7 (by decide) (by decide)

/-- `"%l"` is scanned past its end. -/
theorem percentL_reads_behind :
    NulFree (bytes "%l") ∧ asks (bytes "%l") <+: ([] : List VaArg).map VaArg.kind ∧
      ¬ StaysInside (bytes "%l") [] 7 := by
  decide

/-! ## Formats one after the other -/

/-- What `kvprintf` does for a complete format with exactly the arguments it asks for, and what it
does with whatever comes behind. -/
theorem kvprintf_complete {text : List UInt8} {a : List VaArg} (hnul : NulFree text)
    (hcomplete : (parse text).2 = .complete) (ha : asks text = a.map VaArg.kind) (color : UInt8) :
    ∃ out color',
      kvprintf (text ++ [0]) a color =
        { out := out, args := [], textColor := color', stop := .returned } ∧
      ∀ msg rest, kvprintf (text ++ msg) (a ++ rest) color =
        (kvprintf msg rest color').prepend out := by
  obtain ⟨out, color', hscan⟩ := kvprintf_directives (parse_proper hnul) ha.symm color
  have htext : (parse text).1.flatMap Directive.text = text := by
    simpa [hcomplete, Ending.text] using parse_text text
  rw [htext] at hscan
  refine ⟨out, color', ?_, hscan⟩
  have hself := hscan [0] []
  rw [List.append_nil, kvprintf_nul] at hself
  simpa [Formatted.prepend] using hself

theorem specifier_unknown {spec : UInt8} (hspec : spec ∉ bytes "ducslXk") (args : List VaArg)
    (color : UInt8) :
    specifier spec args color = some (inColour color [37, spec], args, color) := by
  have hbytes : bytes "ducslXk" = [100, 117, 99, 115, 108, 88, 107] := by decide
  simp only [hbytes, List.mem_cons, not_or] at hspec
  simp [specifier, hspec]

theorem longSpecifier_unknown {ahead : UInt8} (hahead : ahead ∉ bytes "du") (args : List VaArg)
    (color : UInt8) :
    longSpecifier ahead args color = some (inColour color [37, 108, ahead], args, color) := by
  have hbytes : bytes "du" = [100, 117] := by decide
  simp only [hbytes, List.mem_cons, not_or] at hahead
  simp [longSpecifier, hahead]

/-- Scanning one format after another is scanning the two in one; `%k` sets the colour of what
comes behind it and of nothing else; literal characters and unknown specifiers are printed as
they are. -/
theorem kvprintf_append (f₁ f₂ : List UInt8) (a₁ a₂ : List VaArg) (color : UInt8)
    (hnul : NulFree f₁) (hcomplete : (parse f₁).2 = .complete)
    (hargs : asks f₁ = a₁.map VaArg.kind) :
    let first := kvprintf (f₁ ++ [0]) a₁ color
    let second := kvprintf (f₂ ++ [0]) a₂ first.textColor
    (kvprintf (f₁ ++ (f₂ ++ [0])) (a₁ ++ a₂) color).out = first.out ++ second.out ∧
    (kvprintf (f₁ ++ (f₂ ++ [0])) (a₁ ++ a₂) color).textColor = second.textColor ∧
    (∀ v, kvprintf (f₁ ++ 37 :: 107 :: (f₂ ++ [0])) (a₁ ++ .int v :: a₂) color =
      (kvprintf (f₂ ++ [0]) a₂ (intToChar v)).prepend first.out) ∧
    (∀ c, c ≠ 0 → c ≠ 37 → kvprintf (f₁ ++ c :: (f₂ ++ [0])) (a₁ ++ a₂) color =
      second.prepend (first.out ++ inColour first.textColor [c])) ∧
    (∀ spec, spec ≠ 0 → spec ∉ bytes "ducslXk" →
      kvprintf (f₁ ++ 37 :: spec :: (f₂ ++ [0])) (a₁ ++ a₂) color =
        second.prepend (first.out ++ inColour first.textColor [37, spec])) ∧
    (∀ ahead, ahead ≠ 0 → ahead ∉ bytes "du" →
      kvprintf (f₁ ++ 37 :: 108 :: ahead :: (f₂ ++ [0])) (a₁ ++ a₂) color =
        second.prepend (first.out ++ inColour first.textColor [37, 108, ahead])) := by
  obtain ⟨out, color', hfirst, hscan⟩ := kvprintf_complete hnul hcomplete hargs color
  simp only [hfirst, hscan]
  refine ⟨rfl, rfl, ?colour, ?literal, ?unknown, ?unknownLong⟩
  case colour =>
    intro v
    have hk : specifier 107 (.int v :: a₂) color' = some ([], a₂, intToChar v) := rfl
    rw [kvprintf_specifier (by decide) (by decide), hk, prepend_prepend, List.append_nil]
  case literal =>
    intro c hc hpercent
    rw [kvprintf_cons hc hpercent, prepend_prepend]
    rfl
  case unknown =>
    intro spec hspec hunknown
    have hlong : spec ≠ 108 := fun h => hunknown (by rw [h]; decide)
    rw [kvprintf_specifier hspec hlong, specifier_unknown hunknown,
      prepend_prepend]
  case unknownLong =>
    intro ahead _ hunknown
    rw [kvprintf_long, longSpecifier_unknown hunknown, prepend_prepend]

theorem kvprintf_append_colour :
    (kvprintf (bytes "a%k" ++ (bytes "b%c" ++ [0])) ([.int 4] ++ [.int 99]) 15).out =
      (kvprintf (bytes "a%k" ++ [0]) [.int 4] 15).out ++
        (kvprintf (bytes "b%c" ++ [0]) [.int 99] 4).out :=
  (kvprintf_append (bytes "a%k") (bytes "b%c") [.int 4] [.int 99] 15
    (by decide) (by decide) (by decide)).1

end Vga
end Feudos
