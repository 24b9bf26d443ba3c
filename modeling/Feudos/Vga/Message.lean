import Feudos.Vga.Clear
import Feudos.Vga.Layout
import Feudos.Vga.Printf

/-!
# Messages on the screen

The kernel's own formats are literals with strings and numbers between them, and they are printed
on a screen that was cleared once.

- `Piece`           : a part of such a format together with its argument;
- `kprintf_pieces`  : printing the pieces is printing the text they show;
- `Prints f t text` : the text since the last clear of the terminal `t` over `f`;
- `Displays f t text` : the same, as pixels;
- `calls_displayed` : what any calls leave on the screen.
-/

namespace Feudos
namespace Vga

open GuardedRun

/-! ## Formats by pieces -/

/-- A part of a format with its argument: literal characters, `%s`, `%c`, `%d`, `%u`, `%ld`, `%lu`
or `%X`. -/
inductive Piece
  | text (chars : List UInt8)
  | str (chars : List UInt8)
  | chr (v : Int32)
  | int (v : Int32)
  | uint (v : UInt32)
  | ld (v : Int64)
  | lu (v : UInt64)
  | hex (v : UInt64)

namespace Piece

def format : Piece → List UInt8
  | text chars => chars
  | str _ => [37, 115]
  | chr _ => [37, 99]
  | int _ => [37, 100]
  | uint _ => [37, 117]
  | ld _ => [37, 108, 100]
  | lu _ => [37, 108, 117]
  | hex _ => [37, 88]

def args : Piece → List VaArg
  | text _ => []
  | str chars => [.str chars]
  | chr v | int v => [.int v]
  | uint v => [.uint v]
  | ld v => [.long v]
  | lu v => [.ulong v]
  | hex v => [.ulong v]

/-- The characters printed. -/
def shown : Piece → List UInt8
  | text chars => chars
  | str chars => chars
  | chr v => [intToChar v]
  | int v => kprintInt v.toInt64 10
  | uint v => kprintUint v.toUInt64 10
  | ld v => kprintInt v 10
  | lu v => kprintUint v 10
  | hex v => kprintUint v 16

/-- Literal characters are neither the terminator nor the percent sign. -/
def proper : Piece → Bool
  | text chars => chars.all (fun c => c ≠ 0 ∧ c ≠ 37)
  | _ => true

end Piece

/-- The scan of a format by its first piece. -/
theorem kvprintf_piece {p : Piece} (hp : p.proper = true) (msg : List UInt8) (args : List VaArg)
    (color : UInt8) :
    kvprintf (p.format ++ msg) (p.args ++ args) color =
      (kvprintf msg args color).prepend (inColour color p.shown) := by
  cases p with
  | text chars =>
      refine kvprintf_literal chars msg args color (fun c hc => ?_)
      simpa using List.all_eq_true.1 hp c hc
  | str chars =>
      exact kvprintf_specifier (by decide) (by decide) msg (.str chars :: args) color
  | chr v | int v =>
      exact kvprintf_specifier (by decide) (by decide) msg (.int v :: args) color
  | uint v =>
      exact kvprintf_specifier (by decide) (by decide) msg (.uint v :: args) color
  | ld v =>
      exact kvprintf_long 100 msg (.long v :: args) color
  | lu v =>
      exact kvprintf_long 117 msg (.ulong v :: args) color
  | hex v =>
      exact kvprintf_specifier (by decide) (by decide) msg (.ulong v :: args) color

theorem kvprintf_pieces {ps : List Piece} (hps : ps.all Piece.proper = true) (color : UInt8) :
    kvprintf (ps.flatMap Piece.format ++ [0]) (ps.flatMap Piece.args) color =
      { out := inColour color (ps.flatMap Piece.shown), args := [], textColor := color,
        stop := .returned } := by
  induction ps with
  | nil =>
      exact kvprintf_nul [] [] color
  | cons p ps ih =>
      rw [List.all_cons, Bool.and_eq_true] at hps
      simp only [List.flatMap_cons, List.append_assoc]
      rw [kvprintf_piece hps.1, ih hps.2, Formatted.prepend, inColour_append]

/-! ## Texts -/

/-- Put characters, each in its colour. -/
def putText (t : Terminal) (text : List (UInt8 × UInt8)) : Terminal :=
  text.foldl (fun t x => vgaPutc t x.1 x.2) t

theorem putText_append (t : Terminal) (a b : List (UInt8 × UInt8)) :
    putText t (a ++ b) = putText (putText t a) b :=
  List.foldl_append

@[simp] theorem putText_textColor (t : Terminal) (text : List (UInt8 × UInt8)) :
    (putText t text).textColor = t.textColor := by
  refine foldl_invariant (I := fun t' : Terminal => t'.textColor = t.textColor) ?_ rfl
  intro t' x ht'
  rw [vgaPutc_textColor, ht']

/-! `vga_putc` does not read the current colour. -/

section

variable (t : Terminal) (col : UInt8)

theorem openRow_recolour :
    openRow (vgaChangeTextColor t col) = vgaChangeTextColor (openRow t) col := by
  unfold openRow
  rw [apply_ite (vgaChangeTextColor · col)]
  rfl

theorem putTab_recolour :
    putTab (vgaChangeTextColor t col) = vgaChangeTextColor (putTab t) col := by
  unfold putTab
  rw [openRow_recolour, apply_ite (vgaChangeTextColor · col)]
  rfl

theorem putBackspace_recolour :
    putBackspace (vgaChangeTextColor t col) = vgaChangeTextColor (putBackspace t) col := by
  unfold putBackspace
  rw [apply_ite (vgaChangeTextColor · col), apply_ite (vgaChangeTextColor · col)]
  rfl

theorem putGlyph_recolour (c color : UInt8) :
    putGlyph (vgaChangeTextColor t col) c color = vgaChangeTextColor (putGlyph t c color) col := by
  unfold putGlyph
  dsimp only
  rw [apply_ite (vgaChangeTextColor · col), ← openRow_recolour]
  rfl

theorem vgaPutc_recolour (c color : UInt8) :
    vgaPutc (vgaChangeTextColor t col) c color = vgaChangeTextColor (vgaPutc t c color) col := by
  unfold vgaPutc
  rw [openRow_recolour, putTab_recolour, putBackspace_recolour, putGlyph_recolour]
  simp only [apply_ite (vgaChangeTextColor · col)]

theorem putText_recolour (text : List (UInt8 × UInt8)) :
    putText (vgaChangeTextColor t col) text = vgaChangeTextColor (putText t text) col := by
  induction text generalizing t with
  | nil =>
      rfl
  | cons x text ih =>
      calc
        putText (vgaChangeTextColor t col) (x :: text)
            = putText (vgaPutc (vgaChangeTextColor t col) x.1 x.2) text := rfl
        _ = vgaChangeTextColor (putText (vgaPutc t x.1 x.2) text) col := by
              rw [vgaPutc_recolour, ih]
        _ = vgaChangeTextColor (putText t (x :: text)) col := rfl

end

/-- `kprintf` of a format in the current colour. -/
theorem kprintf_pieces (t : Terminal) (ps : List Piece) (hps : ps.all Piece.proper = true) :
    kprintf t (ps.flatMap Piece.format ++ [0]) (ps.flatMap Piece.args) =
      putText t (inColour t.textColor (ps.flatMap Piece.shown)) := by
  rw [kprintf_of_kvprintf (kvprintf_pieces hps t.textColor), putText, inColour, List.foldl_map]

/-! ## What the screen shows -/

/-- The framebuffers on which a text grid fits. -/
structure Framebuffer.Usable (f : Framebuffer) : Prop where
  pitch : f.width ≤ f.pitch / 4
  width : 8 ≤ f.width
  width_lt : f.width < 65536
  height : 8 ≤ f.height
  height_lt : f.height < 65536

instance (f : Framebuffer) : Decidable f.Usable :=
  decidable_of_iff
    (f.width ≤ f.pitch / 4 ∧ 8 ≤ f.width ∧ f.width < 65536 ∧ 8 ≤ f.height ∧ f.height < 65536)
    ⟨fun ⟨h₁, h₂, h₃, h₄, h₅⟩ => ⟨h₁, h₂, h₃, h₄, h₅⟩,
      fun ⟨h₁, h₂, h₃, h₄, h₅⟩ => ⟨h₁, h₂, h₃, h₄, h₅⟩⟩

def Framebuffer.columns (f : Framebuffer) : Nat := f.width / 8

/-- `vga_init` uses at most 256 rows. -/
def Framebuffer.rows (f : Framebuffer) : Nat := min (f.height / 8) 256

/-- The framebuffer shows the last rows of the text laid out in `f.columns` columns, and the cursor
is at the end of the text. -/
structure Displays (f : Framebuffer) (t : Terminal) (text : List (UInt8 × UInt8)) : Prop where
  pixels : ∀ c r : Nat, c < f.columns → r < f.rows → ∀ px py : Nat, px < 8 → py < 8 →
    pixel (vgaInit f) t.screen (c * 8 + px) (r * 8 + py) =
      cellPixel ((((Layout.ofText f.columns text).tail f.rows).getD r []).getD c none) px py
  column : t.cursorColumn = (Layout.ofText f.columns text).current.length
  row : t.cursorRow = min (Layout.ofText f.columns text).closed.length (f.rows - 1)

/-- The terminal over `f` was cleared, and since then `text` was put on it. -/
def Prints (f : Framebuffer) (t : Terminal) (text : List (UInt8 × UInt8)) : Prop :=
  ∃ start, Follows f f.columns f.rows start t (Layout.ofText f.columns text)

section

variable {f : Framebuffer} {t : Terminal} {text : List (UInt8 × UInt8)}

theorem Framebuffer.Usable.vgaWidth (hf : f.Usable) : (vgaInit f).vgaWidth = f.columns :=
  vgaInit_vgaWidth hf.width_lt

theorem Framebuffer.Usable.vgaHeight (hf : f.Usable) : (vgaInit f).vgaHeight = f.rows :=
  vgaInit_vgaHeight hf.height_lt

theorem Framebuffer.Usable.hasCells (hf : f.Usable) : (vgaInit f).HasCells := by
  have hwidth := hf.width
  have hheight := hf.height
  refine vgaInit_hasCells ?_ ?_
  · rw [hf.vgaWidth, Framebuffer.columns]
    omega
  · rw [hf.vgaHeight, Framebuffer.rows]
    omega

theorem Prints.geom (h : Prints f t text) : t.geom = vgaInit f :=
  h.choose_spec.geom

/-- A cleared screen shows the empty layout, whatever was on it. -/
theorem clear_shows (hf : f.Usable) (hgeom : t.geom = vgaInit f) {color : UInt8}
    (hbg : bgRgb color = 0) :
    Shows (vgaClearScreen t color) (Layout.empty.page f.rows) := by
  have hwidth := hf.hasCells.width
  have hheight := hf.hasCells.height
  have hgeom' : (vgaClearScreen t color).geom = vgaInit f := hgeom
  have hH := hf.vgaHeight
  have htop : (Layout.empty.page f.rows).top = 0 := by
    simp only [Layout.page, Layout.empty, List.length_nil]
    omega
  have hrow0 : ((0 : Nat) : Int) < (vgaClearScreen t color).geom.vgaHeight := by
    rw [hgeom']
    omega
  have hcol0 : ((0 : Nat) : Int) < (vgaClearScreen t color).geom.vgaWidth := by
    rw [hgeom']
    omega
  refine ⟨by rw [htop]; rfl, hrow0, rfl, hcol0, ?_, fun c r _ => page_empty_cell f.rows r c⟩
  -- Every pixel of the grid has the background colour, which is black.
  intro c r hc hr
  rw [page_empty_cell]
  funext px py
  have hpx := px.isLt
  have hpy := py.isLt
  have hinx := vgaInit_width_le f
  have hiny := vgaInit_height_le f
  have hframe : (vgaInit f).framebuffer = f := rfl
  rw [hgeom'] at hc hr ⊢
  have hpixel := vgaClearScreen_pixel t color (x := c * 8 + px) (y := r * 8 + py)
    (by rw [hgeom, hframe]; omega) (by rw [hgeom, hframe]; omega)
  rw [hgeom, hbg] at hpixel
  exact hpixel

/-- Clearing starts a new text. -/
theorem clear_prints (hf : f.Usable) (hgeom : t.geom = vgaInit f) {color : UInt8}
    (hbg : bgRgb color = 0) : Prints f (vgaClearScreen t color) [] := by
  have hwidth := hf.hasCells.width
  rw [hf.vgaWidth] at hwidth
  have hcurrent : Layout.empty.current.length < f.columns := by
    simp only [Layout.empty, List.length_nil]
    omega
  exact ⟨vgaClearScreen t color, hgeom, clear_shows hf hgeom hbg, hcurrent,
    fun _ _ _ _ _ => rfl⟩

/-- Characters put on the terminal come behind the text. -/
theorem Prints.put (hf : f.Usable) (h : Prints f t text) {more : List (UInt8 × UInt8)}
    (hmore : ∀ x ∈ more, x.1 ≠ 8) : Prints f (putText t more) (text ++ more) := by
  rcases h with ⟨start, hfollows⟩
  have hlt : f.columns < 65534 := by
    have hwidth := hf.width_lt
    rw [Framebuffer.columns]
    omega
  have hall := follows_text (vgaInit_fits hf.pitch) hf.hasCells hf.vgaWidth hf.vgaHeight hlt hmore
    hfollows
  refine ⟨start, ?_⟩
  rw [Layout.ofText, List.foldl_append]
  exact hall

theorem Prints.displays (hf : f.Usable) (h : Prints f t text) : Displays f t text := by
  rcases h with ⟨start, hfollows⟩
  have hshows := hfollows.shows_page
  have hW := hf.vgaWidth
  have hH := hf.vgaHeight
  have hgeom := hfollows.geom
  refine ⟨?_, hshows.col.symm, ?_⟩
  · intro c r hc hr px py hpx hpy
    have hblock := hshows.cells c r (by rw [hgeom, hW]; omega) (by rw [hgeom, hH]; omega)
    have hpixel := congrFun (congrFun hblock ⟨px, hpx⟩) ⟨py, hpy⟩
    rw [hgeom] at hpixel
    -- Row `r` of the screen is row `r` of the last rows of the text.
    generalize Layout.ofText f.columns text = l at hpixel ⊢
    have hrow : (l.tail f.rows).getD r [] = l.rows.getD (l.closed.length + 1 - f.rows + r) [] := by
      simp [Layout.tail, Layout.rows, List.getD_eq_getElem?_getD, List.getElem?_drop]
    rw [hrow]
    exact hpixel
  · have hrow := hshows.row
    have hlt := hshows.row_lt
    rw [hgeom, hH] at hlt
    simp only [Layout.page] at hrow
    omega

/-- The colour of the text does not matter to what is on the screen. -/
theorem Prints.recolour (h : Prints f t text) (color : UInt8) :
    Prints f (vgaChangeTextColor t color) text := by
  rcases h with ⟨start, hgeom, ⟨hrow, hrowlt, hcol, hcollt, hcells, hbelow⟩, hlt, hout⟩
  exact ⟨start, hgeom, ⟨hrow, hrowlt, hcol, hcollt, hcells, hbelow⟩, hlt, hout⟩

end

theorem inColour_ne {color : UInt8} {text : List UInt8} (h : (8 : UInt8) ∉ text) :
    ∀ x ∈ inColour color text, x.1 ≠ 8 := by
  intro x hx hEq
  rcases List.mem_map.1 hx with ⟨c, hc, rfl⟩
  exact h (hEq ▸ hc)

/-! ## Calls one after another -/

/-- What the kernel does to its terminal. -/
inductive Call
  | print (ps : List Piece)
  | recolour (color : UInt8)
  | clear (color : UInt8)

namespace Call

def run (t : Terminal) : Call → Terminal
  | print ps => kprintf t (ps.flatMap Piece.format ++ [0]) (ps.flatMap Piece.args)
  | recolour color => vgaChangeTextColor t color
  | clear color => vgaClearScreen t color

/-- What a call does to the colour and to the text. -/
def write (x : UInt8 × List (UInt8 × UInt8)) : Call → UInt8 × List (UInt8 × UInt8)
  | print ps => (x.1, x.2 ++ inColour x.1 (ps.flatMap Piece.shown))
  | recolour color => (color, x.2)
  | clear _ => (x.1, [])

/-- The formats are those of `kprintf_pieces`, nothing printed is a backspace, and the screen is
cleared to black. -/
def Proper : Call → Prop
  | print ps => ps.all Piece.proper = true ∧ (8 : UInt8) ∉ ps.flatMap Piece.shown
  | recolour _ => True
  | clear color => bgRgb color = 0

end Call

/-- Any calls behind `vga_init` and a first clear, with any formats, strings and numbers: the screen
shows the text printed since the last clear, each character in the colour of its time. -/
theorem calls_displayed (f : Framebuffer) (fb : Nat → UInt32) (color : UInt8) (hf : f.Usable)
    (hblack : bgRgb color = 0) (calls : List Call) (hcalls : ∀ call ∈ calls, call.Proper) :
    Displays f (calls.foldl Call.run (started f fb color))
      (calls.foldl Call.write (0x0F, [])).2 := by
  have hrun : ∀ {t x}, Prints f t x.2 → t.textColor = x.1 →
      Prints f (calls.foldl Call.run t) (calls.foldl Call.write x).2 := by
    induction calls with
    | nil =>
        exact fun hprints _ => hprints
    | cons call calls ih =>
        intro t x hprints hcolour
        have hcall := hcalls call (List.mem_cons_self ..)
        have hrest := @ih (fun call hmem => hcalls call (List.mem_cons_of_mem _ hmem))
        cases call with
        | print ps =>
            refine hrest ?_ ?_
            · rw [Call.run, kprintf_pieces t ps hcall.1, hcolour]
              exact hprints.put hf (inColour_ne hcall.2)
            · rw [Call.run, kprintf_pieces t ps hcall.1, putText_textColor, hcolour]
              rfl
        | recolour color =>
            exact hrest (hprints.recolour color) rfl
        | clear color =>
            exact hrest (clear_prints hf hprints.geom hcall) hcolour
  have hstart : Prints f (started f fb color) [] := clear_prints hf rfl hblack
  exact (hrun hstart rfl).displays hf

theorem calls_displayed_hex :
    Displays vga640
      ([Call.recolour 0x04, .print [.text [48, 120], .hex 255, .text [10]], .clear 0x0F,
        .print [.str [111, 107]]].foldl Call.run (started vga640 (fun _ => 0) 0x0F))
      [(111, 0x04), (107, 0x04)] :=
  calls_displayed vga640 (fun _ => 0) 0x0F (by decide) (by decide)
    [.recolour 0x04, .print [.text [48, 120], .hex 255, .text [10]], .clear 0x0F,
      .print [.str [111, 107]]]
    (by
      intro call hcall
      simp only [List.mem_cons, List.not_mem_nil, or_false] at hcall
      rcases hcall with rfl | rfl | rfl | rfl
      · trivial
      · exact ⟨by decide, by decide +kernel⟩
      · exact (by decide : bgRgb 0x0F = 0)
      · exact ⟨by decide, by decide⟩)

end Vga
end Feudos
