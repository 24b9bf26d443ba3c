import Feudos.Keyboard.Editing
import Feudos.Vga.Page

/-!
# The echo and the line

A character typed goes two ways: `kbd_buffer_push` edits the line that the shell will read, and
`vga_putc` echoes it.  The screen shows the line when it looks as if only the characters that are
left had been echoed, but for cells that a backspace has blanked and for scrolling.

`echo_shows_line` says that it does in every run whose backspaces undo the echo of the character
that they remove: it had moved the cursor by one column, or to a new row from the column that
`line_len` remembers, or it had no echo and the cursor is in the corner, where a backspace has none
either.
-/

namespace Feudos

open Vga GuardedRun

namespace Vga
namespace Page

/-! ## Pages that differ in erased cells -/

/-- `q` is `p` with the cells of `erased` blank, and scrolled at least as far. -/
structure Erased (erased : List (Nat × Nat)) (p q : Page) : Prop where
  row : q.row = p.row
  col : q.col = p.col
  top : p.top ≤ q.top
  cell : ∀ r c, q.cell r c = if (r, c) ∈ erased then blankBlock else p.cell r c

variable {g : Geometry} {p q : Page} {erased : List (Nat × Nat)}

/-- The erased cells that are still erased after `c` was put on the page. -/
def overwrite (erased : List (Nat × Nat)) (p : Page) (c : UInt8) : List (Nat × Nat) :=
  if signedChar c ≤ 31 then erased else erased.filter (fun x => x ≠ (p.row, p.col))

theorem Erased.openRow (h : Erased erased p q) : Erased erased (p.openRow g) (q.openRow g) := by
  have htop := h.top
  refine ⟨congrArg (· + 1) h.row, rfl, ?_, h.cell⟩
  simp only [Page.openRow, h.row]
  -- The page that has scrolled further may have to scroll once less.
  by_cases hroom : (p.row : Int) + 1 < p.top + g.vgaHeight
  · rw [if_pos hroom]
    split <;> omega
  · rw [if_neg hroom]
    split <;> omega

theorem Erased.advance (h : Erased erased p q) (col : Nat) :
    Erased erased (p.advance g col) (q.advance g col) := by
  unfold Page.advance
  split
  · exact h.openRow
  · exact ⟨h.row, rfl, h.top, h.cell⟩

theorem Erased.write (h : Erased erased p q) (b : Fin 8 → Fin 8 → UInt32) :
    Erased (erased.filter (fun x => x ≠ (p.row, p.col))) (p.write p.row p.col b)
      (q.write q.row q.col b) := by
  refine ⟨h.row, h.col, h.top, ?_⟩
  intro r c
  simp only [Page.write, h.row, h.col]
  by_cases hnow : c = p.col ∧ r = p.row
  · simp [hnow]
  · have hne : (r, c) ≠ (p.row, p.col) := by
      intro hEq
      rw [Prod.mk.injEq] at hEq
      exact hnow ⟨hEq.2, hEq.1⟩
    simp [hnow, hne, h.cell r c]

/-- The same character on both pages. -/
theorem Erased.putc (h : Erased erased p q) (c color : UInt8) :
    Erased (overwrite erased p c) (p.putc g c color) (q.putc g c color) := by
  unfold Page.putc overwrite
  by_cases hctl : signedChar c ≤ 31
  · rw [if_pos hctl, if_pos hctl, if_pos hctl, h.col]
    split
    · exact h.openRow
    · split
      · exact h.advance _
      · exact h
  · rw [if_neg hctl, if_neg hctl, if_neg hctl, h.col]
    have hwrite := h.write (glyphBlock c color)
    rw [h.col] at hwrite
    exact hwrite.advance _

/-! ## One character on a page -/

theorem top_le_advance (g : Geometry) (p : Page) (col : Nat) : p.top ≤ (p.advance g col).top := by
  unfold Page.advance
  split
  · simp only [Page.openRow]
    split <;> omega
  · exact Nat.le_refl _

theorem top_le_putc (g : Geometry) (p : Page) (c color : UInt8) :
    p.top ≤ (p.putc g c color).top := by
  unfold Page.putc
  split
  · split
    · simp only [Page.openRow]
      split <;> omega
    · split
      · exact top_le_advance g p _
      · exact Nat.le_refl _
  · exact top_le_advance g (p.write p.row p.col (glyphBlock c color)) _

theorem advance_cell (g : Geometry) (p : Page) (col : Nat) : (p.advance g col).cell = p.cell := by
  unfold Page.advance
  split <;> rfl

theorem putc_cell_control (g : Geometry) (p : Page) {ch : UInt8} (color : UInt8)
    (hctl : signedChar ch ≤ 31) : (p.putc g ch color).cell = p.cell := by
  unfold Page.putc
  rw [if_pos hctl]
  split
  · rfl
  · split
    · rw [advance_cell]
    · rfl

/-- A character changes at most the cell it is put on. -/
theorem putc_cell (g : Geometry) (p : Page) (ch color : UInt8) {r c : Nat}
    (hne : (r, c) ≠ (p.row, p.col)) : (p.putc g ch color).cell r c = p.cell r c := by
  by_cases hctl : signedChar ch ≤ 31
  · rw [putc_cell_control g p color hctl]
  · have hother : ¬ (c = p.col ∧ r = p.row) := by
      rintro ⟨rfl, rfl⟩
      exact hne rfl
    unfold Page.putc
    rw [if_neg hctl, advance_cell]
    simp only [Page.write, if_neg hother]

/-- A character that leaves the cursor where it is writes nothing. -/
theorem putc_cell_ignored (g : Geometry) (p : Page) (ch color : UInt8)
    (hrow : (p.putc g ch color).row = p.row) (hcol : (p.putc g ch color).col = p.col) :
    (p.putc g ch color).cell = p.cell := by
  by_cases hctl : signedChar ch ≤ 31
  · exact putc_cell_control g p color hctl
  · unfold Page.putc at hrow hcol
    rw [if_neg hctl] at hrow hcol
    unfold Page.advance at hrow hcol
    split at hcol
    · rename_i hwrap
      rw [if_pos hwrap] at hrow
      exact absurd hrow (Nat.succ_ne_self p.row)
    · have hmoved : u16 (p.col + 1) = p.col := hcol
      unfold u16 at hmoved
      omega

end Page

/-- The page that the screen shows when it is the first screen. -/
def Page.of (t : Terminal) : Page :=
  { top := 0
    row := t.cursorRow
    col := t.cursorColumn
    cell := fun r c =>
      if (r : Int) < t.geom.vgaHeight then block t.geom t.screen c r else blankBlock }

theorem shows_of {t : Terminal} (hrow : (t.cursorRow : Int) < t.geom.vgaHeight)
    (hcol : (t.cursorColumn : Int) < t.geom.vgaWidth) : Shows t (Page.of t) := by
  refine ⟨(Nat.zero_add _).symm, hrow, rfl, hcol, ?_, ?_⟩
  · intro c r _ hr
    have hzero : 0 + r = r := Nat.zero_add r
    simp only [Page.of, hzero, if_pos hr]
  · intro c r hr
    have hout : ¬ (r : Int) < t.geom.vgaHeight := by simp only [Page.of] at hr; omega
    simp only [Page.of, if_neg hout]

end Vga

/-! ## Echoing a line -/

/-- `kprintf("%c", c)`, see `kprintf_char`. -/
def echo (t : Terminal) (c : UInt8) : Terminal :=
  vgaPutc t c t.textColor

/-- The page after the echo of `line` from `t`. -/
def pageAfter (t : Terminal) (line : List UInt8) : Page :=
  line.foldl (fun p c => p.putc t.geom c t.textColor) (Page.of t)

theorem pageAfter_concat (t : Terminal) (line : List UInt8) (c : UInt8) :
    pageAfter t (line ++ [c]) = (pageAfter t line).putc t.geom c t.textColor := by
  simp [pageAfter]

/-- Echoing a line without backspaces shows its page. -/
theorem echo_shows {t₀ t : Terminal} {p : Page} {line : List UInt8} (hf : t₀.geom.Fits)
    (hg : t₀.geom.HasCells) (hline : ∀ c ∈ line, c ≠ 8) (hgeom : t.geom = t₀.geom)
    (hcolor : t.textColor = t₀.textColor) (h : Shows t p) :
    (line.foldl echo t).geom = t₀.geom ∧
      Shows (line.foldl echo t) (line.foldl (fun p c => p.putc t₀.geom c t₀.textColor) p) := by
  induction line generalizing t p with
  | nil =>
      exact ⟨hgeom, h⟩
  | cons c line ih =>
      have hc : c ≠ 8 := hline c (List.mem_cons_self ..)
      have hstep := vgaPutc_shows (hgeom ▸ hf) (hgeom ▸ hg) hc t.textColor h
      rw [hgeom, hcolor] at hstep
      refine ih (fun d hd => hline d (List.mem_cons_of_mem _ hd)) ?_ ?_ ?_
      · rw [echo, vgaPutc_geom, hgeom]
      · rw [echo, vgaPutc_textColor, hcolor]
      · rw [echo, hcolor]
        exact hstep

/-! ## The line, and the cells erased -/

/-- The line typed so far, and the cells blanked by backspaces and not written since; rows are
counted from the top of the screen at the start of the line. -/
structure Edited where
  line : List UInt8
  erased : List (Nat × Nat)

/-- A key.  A backspace blanks the cell from which the removed character moved the cursor. -/
def Edited.key (t : Terminal) (x : Edited) (c : UInt8) : Edited :=
  if c = 8 then
    let before := pageAfter t x.line.dropLast
    let after := pageAfter t x.line
    { line := x.line.dropLast
      erased :=
        if after.row = before.row ∧ after.col = before.col then x.erased
        else (before.row, before.col) :: x.erased }
  else
    { line := x.line ++ [c]
      erased := Page.overwrite x.erased (pageAfter t x.line) c }

theorem Edited.key_line (t : Terminal) (x : Edited) (c : UInt8) :
    (x.key t c).line = editLine x.line c := by
  unfold Edited.key editLine
  split <;> rfl

/-! ## Backspaces that undo an echo -/

/-- The echo that took the cursor from `before` to `after` is undone by a backspace on `t`. -/
def Undone (before after : Page) (t : Terminal) : Prop :=
  (after.row = before.row ∧ after.col = before.col + 1) ∨
  (after.row = before.row + 1 ∧ after.col = 0 ∧ t.cursorRow ≠ 0 ∧
    (t.lineLen.len (t.cursorRow - 1)).toNat = before.col) ∨
  (after.row = before.row ∧ after.col = before.col ∧ t.cursorRow = 0 ∧ t.cursorColumn = 0)

instance (before after : Page) (t : Terminal) : Decidable (Undone before after t) :=
  inferInstanceAs (Decidable (_ ∨ _ ∨ _))

/-- Blanking the cell of the last character takes its page back to the page before it. -/
theorem erase_erased {g : Geometry} {before q : Page} {erased : List (Nat × Nat)}
    {c color : UInt8} (h : Page.Erased erased (before.putc g c color) q) :
    Page.Erased ((before.row, before.col) :: erased) before (q.erase before.row before.col) := by
  refine ⟨rfl, rfl, Nat.le_trans (Page.top_le_putc g before c color) h.top, ?_⟩
  intro r c'
  by_cases hhere : (r, c') = (before.row, before.col)
  · rw [Prod.mk.injEq] at hhere
    rcases hhere with ⟨rfl, rfl⟩
    simp [Page.erase, Page.write]
  · have hother : ¬ (c' = before.col ∧ r = before.row) := by
      rintro ⟨rfl, rfl⟩
      exact hhere rfl
    have hcell := h.cell r c'
    rw [Page.putc_cell g before c color hhere] at hcell
    simp only [Page.erase, Page.write, if_neg hother, List.mem_cons, hhere, false_or]
    exact hcell

section

variable {t₀ t : Terminal} {x : Edited} {before q : Page} {g : Geometry} {c color : UInt8}
variable {erased : List (Nat × Nat)}

/-- One column back on the same row. -/
theorem backspace_left (hf : t.geom.Fits) (h : Shows t q)
    (herased : Page.Erased erased (before.putc g c color) q)
    (hbefore : (before.col : Int) < t.geom.vgaWidth)
    (hrow : (before.putc g c color).row = before.row)
    (hcol : (before.putc g c color).col = before.col + 1) :
    Shows (putBackspace t) (q.erase before.row before.col) ∧
      Page.Erased ((before.row, before.col) :: erased) before (q.erase before.row before.col) := by
  have hcursor : t.cursorColumn = before.col + 1 := by
    calc
      t.cursorColumn = q.col := h.col.symm
      _ = (before.putc g c color).col := herased.col
      _ = before.col + 1 := hcol
  have hnotLeft : t.cursorColumn ≠ 0 := by
    rw [hcursor]
    exact Nat.succ_ne_zero _
  have hcolumn : t.cursorColumn - 1 = before.col := by
    rw [hcursor]
    rfl
  have htarget : q.top + t.cursorRow = before.row := by
    calc
      q.top + t.cursorRow = q.row := h.row.symm
      _ = (before.putc g c color).row := herased.row
      _ = before.row := hrow
  have hshows := eraseCell_shows hf hbefore h.row_lt h
  rw [htarget] at hshows
  refine ⟨?_, erase_erased herased⟩
  rw [putBackspace, if_neg hnotLeft, hcolumn]
  exact hshows

/-- Back up to the column that `line_len` remembers. -/
theorem backspace_up (hf : t.geom.Fits) (h : Shows t q)
    (herased : Page.Erased erased (before.putc g c color) q)
    (hbefore : (before.col : Int) < t.geom.vgaWidth)
    (hrow : (before.putc g c color).row = before.row + 1)
    (hcol : (before.putc g c color).col = 0) (hnotTop : t.cursorRow ≠ 0)
    (hlen : (t.lineLen.len (t.cursorRow - 1)).toNat = before.col) :
    Shows (putBackspace t) (q.erase before.row before.col) ∧
      Page.Erased ((before.row, before.col) :: erased) before (q.erase before.row before.col) := by
  have hleft : t.cursorColumn = 0 := by
    calc
      t.cursorColumn = q.col := h.col.symm
      _ = (before.putc g c color).col := herased.col
      _ = 0 := hcol
  have hdown : q.top + t.cursorRow = before.row + 1 := by
    calc
      q.top + t.cursorRow = q.row := h.row.symm
      _ = (before.putc g c color).row := herased.row
      _ = before.row + 1 := hrow
  have htarget : q.top + (t.cursorRow - 1) = before.row := by omega
  have hlt := h.row_lt
  have hup : ((t.cursorRow - 1 : Nat) : Int) < t.geom.vgaHeight := by omega
  -- The access to `line_len` leaves what the screen shows.
  have htouched : Shows { t with lineLen := t.lineLen.touch (t.cursorRow - 1) } q :=
    ⟨h.row, h.row_lt, h.col, h.col_lt, h.cells, h.below⟩
  have hshows := eraseCell_shows (t := { t with lineLen := t.lineLen.touch (t.cursorRow - 1) })
    hf hbefore hup htouched
  rw [htarget] at hshows
  refine ⟨?_, erase_erased herased⟩
  simp only [putBackspace, if_pos hleft, if_neg hnotTop, touch_len, hlen]
  exact hshows

/-- Nothing was echoed, and a backspace in the corner does nothing. -/
theorem backspace_corner (h : Shows t q)
    (herased : Page.Erased erased (before.putc g c color) q)
    (hrow : (before.putc g c color).row = before.row)
    (hcol : (before.putc g c color).col = before.col)
    (htop : t.cursorRow = 0) (hleft : t.cursorColumn = 0) :
    Shows (putBackspace t) q ∧ Page.Erased erased before q := by
  have hcell := Page.putc_cell_ignored g before c color hrow hcol
  constructor
  · rw [putBackspace, if_pos hleft, if_pos htop]
    exact h
  · refine ⟨herased.row.trans hrow, herased.col.trans hcol,
      Nat.le_trans (Page.top_le_putc g before c color) herased.top, ?_⟩
    intro r c'
    rw [herased.cell, hcell]

/-- A backspace that undoes the echo of the last character of the line. -/
theorem backspace_shows {init : List UInt8} (hf : t.geom.Fits)
    (hline : x.line = init ++ [c]) (h : Shows t q)
    (herased : Page.Erased x.erased (pageAfter t₀ x.line) q)
    (hbefore : ((pageAfter t₀ init).col : Int) < t.geom.vgaWidth)
    (hundone : Undone (pageAfter t₀ init) (pageAfter t₀ x.line) t) :
    ∃ q', Shows (putBackspace t) q' ∧
      Page.Erased (x.key t₀ 8).erased (pageAfter t₀ (x.key t₀ 8).line) q' := by
  have hinit : x.line.dropLast = init := by rw [hline, List.dropLast_concat]
  have hpage : pageAfter t₀ x.line = (pageAfter t₀ init).putc t₀.geom c t₀.textColor := by
    rw [hline, pageAfter_concat]
  simp only [Edited.key, if_pos, hinit]
  rw [hpage] at herased hundone ⊢
  rcases hundone with ⟨hrow, hcol⟩ | ⟨hrow, hcol, htop, hlen⟩ | ⟨hrow, hcol, htop, hleft⟩
  · rw [if_neg (fun hboth => Nat.succ_ne_self _ (hcol.symm.trans hboth.2))]
    exact ⟨_, backspace_left hf h herased hbefore hrow hcol⟩
  · rw [if_neg (fun hboth => Nat.succ_ne_self _ (hrow.symm.trans hboth.1))]
    exact ⟨_, backspace_up hf h herased hbefore hrow hcol htop hlen⟩
  · rw [if_pos ⟨hrow, hcol⟩]
    exact ⟨q, backspace_corner h herased hrow hcol htop hleft⟩

end

/-! ## Runs of the handler -/

/-- The characters in the buffer since the state `k₀`. -/
def lineSince (k₀ k : Kernel) : List UInt8 :=
  k.kbdBuf.buf.slice k₀.kbdBuf.pos (k.kbdBuf.pos - k₀.kbdBuf.pos)

/-- A key of the line: no newline, no wrap, no backspace on the empty line. -/
def EditsSince (k₀ k : Kernel) (sc : UInt8) : Prop :=
  ∀ c ∈ decode k.shiftHeld sc,
    c ≠ 10 ∧ NoWrap k.kbdBuf c ∧ (c = 8 → k.kbdBuf.pos ≠ k₀.kbdBuf.pos)

/-- A key that is not a backspace, or a backspace that undoes the echo of the last character. -/
def UndoesEcho (k₀ k : Kernel) (sc : UInt8) : Prop :=
  decode k.shiftHeld sc = some 8 →
    Undone (pageAfter k₀.terminal (lineSince k₀ k).dropLast)
      (pageAfter k₀.terminal (lineSince k₀ k)) k.terminal

instance (k₀ k : Kernel) (sc : UInt8) : Decidable (EditsSince k₀ k sc) :=
  inferInstanceAs (Decidable (∀ c ∈ decode k.shiftHeld sc, _))

instance (k₀ k : Kernel) (sc : UInt8) : Decidable (UndoesEcho k₀ k sc) :=
  inferInstanceAs (Decidable (_ → _))

/-- The buffer holds the line, and the screen shows its page but for the erased cells. -/
structure Follows (past : Nat → UInt8) (k₀ : Kernel) (x : Edited) (k : Kernel) : Prop where
  ok : k.kbdBuf.Ok past
  holds : Holds k₀.kbdBuf x.line k.kbdBuf
  noBackspace : ∀ c ∈ x.line, c ≠ 8
  geom : k.terminal.geom = k₀.terminal.geom
  color : k.terminal.textColor = k₀.terminal.textColor
  page : ∃ q, Shows k.terminal q ∧ Page.Erased x.erased (pageAfter k₀.terminal x.line) q

theorem Follows.lineSince {past : Nat → UInt8} {k₀ k : Kernel} {x : Edited}
    (h : Follows past k₀ x k) : lineSince k₀ k = x.line := by
  have hpos := h.holds.pos
  have hlen : k.kbdBuf.pos - k₀.kbdBuf.pos = x.line.length := by omega
  rw [Feudos.lineSince, hlen, h.holds.slice]

section

variable {past : Nat → UInt8} {k₀ k : Kernel} {x : Edited}

theorem pageAfter_col_lt (hf : k₀.terminal.geom.Fits) (hg : k₀.terminal.geom.HasCells)
    (hstart : Shows k₀.terminal (Page.of k₀.terminal)) {line : List UInt8}
    (hline : ∀ c ∈ line, c ≠ 8) :
    ((pageAfter k₀.terminal line).col : Int) < k₀.terminal.geom.vgaWidth := by
  rcases echo_shows hf hg hline rfl rfl hstart with ⟨hgeom, hshows⟩
  have hcol := hshows.col_lt
  rw [← hshows.col, hgeom] at hcol
  exact hcol

/-- The page after a key of the line: a character is put on both pages, a backspace undoes one. -/
theorem key_shows (hf : k₀.terminal.geom.Fits) (hg : k₀.terminal.geom.HasCells)
    (hstart : Shows k₀.terminal (Page.of k₀.terminal)) {c : UInt8}
    (hown : ErasesOwn x.line c)
    (hundoes : c = 8 → Undone (pageAfter k₀.terminal x.line.dropLast)
      (pageAfter k₀.terminal x.line) k.terminal) (h : Follows past k₀ x k) :
    ∃ q, Shows (vgaPutc k.terminal c k.terminal.textColor) q ∧
      Page.Erased (x.key k₀.terminal c).erased
        (pageAfter k₀.terminal (x.key k₀.terminal c).line) q := by
  rcases h.page with ⟨q, hshows, herased⟩
  by_cases h8 : c = 8
  · subst h8
    have hundone := hundoes rfl
    rcases List.eq_nil_or_concat x.line with hnil | ⟨init, last, hline⟩
    · exact absurd hnil (hown rfl)
    · rw [List.concat_eq_append] at hline
      rw [hline, List.dropLast_concat, ← hline] at hundone
      have hinit : ∀ d ∈ init, d ≠ 8 := fun d hd =>
        h.noBackspace d (by rw [hline]; exact List.mem_append_left _ hd)
      have hcol := pageAfter_col_lt hf hg hstart hinit
      rw [← h.geom] at hcol hf
      rw [vgaPutc_backspace]
      exact backspace_shows hf hline hshows herased hcol hundone
  · have hputc := vgaPutc_shows (h.geom ▸ hf) (h.geom ▸ hg) h8 k.terminal.textColor hshows
    have hboth := herased.putc (g := k₀.terminal.geom) c k₀.terminal.textColor
    refine ⟨_, hputc, ?_⟩
    simp only [Edited.key, if_neg h8, pageAfter_concat]
    rw [h.geom, h.color]
    exact hboth

theorem kbdHandleScancode_follows (hf : k₀.terminal.geom.Fits)
    (hg : k₀.terminal.geom.HasCells) (hstart : Shows k₀.terminal (Page.of k₀.terminal)) (sc : UInt8)
    (hedits : EditsSince k₀ k sc) (hundoes : UndoesEcho k₀ k sc) (h : Follows past k₀ x k) :
    Follows past k₀ ((decode k.shiftHeld sc).toList.foldl (Edited.key k₀.terminal) x)
      (kbdHandleScancode k sc) := by
  have hpos := h.holds.pos
  cases hdecode : decode k.shiftHeld sc with
  | none =>
      -- Only `shift_held` may have changed.
      rw [kbdHandleScancode_eq, hdecode]
      exact ⟨h.ok, h.holds, h.noBackspace, h.geom, h.color, h.page⟩
  | some c =>
      rcases hedits c hdecode with ⟨hnewline, hwrap, hempty⟩
      have hown : ErasesOwn x.line c := by
        intro h8 hnil
        rw [hnil, List.length_nil] at hpos
        exact hempty h8 hpos
      have hkeep := keepsTo_of_noWrap h.ok h.holds hwrap (Or.inr hown)
      have hholds := push_holds h.holds hkeep
      have hok := kbdBufferPush_ok h.ok (decode_ne_zero hdecode)
      have hpage := key_shows hf hg hstart hown
        (fun h8 => h.lineSince ▸ hundoes (h8 ▸ hdecode)) h
      rw [kbdHandleScancode_eq, hdecode]
      simp only [Option.toList_some, List.foldl_cons, List.foldl_nil]
      rw [← Edited.key_line k₀.terminal] at hholds
      refine ⟨hok, hholds, ?_, by rw [vgaPutc_geom, h.geom], by rw [vgaPutc_textColor, h.color],
        hpage⟩
      intro d hd
      rw [Edited.key_line, editLine] at hd
      split at hd
      · exact h.noBackspace d (List.dropLast_subset _ hd)
      · rcases List.mem_append.1 hd with hold | hnew
        · exact h.noBackspace d hold
        · rw [List.mem_singleton.1 hnew]
          assumption

theorem foldl_follows (hf : k₀.terminal.geom.Fits) (hg : k₀.terminal.geom.HasCells)
    (hstart : Shows k₀.terminal (Page.of k₀.terminal)) {scs : List UInt8}
    (hedits : Guarded kbdHandleScancode (EditsSince k₀) k scs)
    (hundoes : Guarded kbdHandleScancode (UndoesEcho k₀) k scs) (h : Follows past k₀ x k) :
    Follows past k₀ ((typed k.shiftHeld scs).foldl (Edited.key k₀.terminal) x)
      (scs.foldl kbdHandleScancode k) := by
  induction scs generalizing k x with
  | nil =>
      exact h
  | cons sc scs ih =>
      have hstep := kbdHandleScancode_follows hf hg hstart sc hedits.1 hundoes.1 h
      have hrest := ih hedits.2 hundoes.2 hstep
      rw [kbdHandleScancode_shiftHeld] at hrest
      rw [typed, List.foldl_append, List.foldl_cons]
      exact hrest

end

/-! ## The screen and the line -/

/-- `t` looks like `t'`, scrolled at least as far, with the cells of `erased` blank.  The rows of
`erased` are counted from the top of the screen at the start of the line, where the cursor of both
is in row `row`. -/
structure LooksLike (t t' : Terminal) (erased : List (Nat × Nat)) (row : Nat) : Prop where
  column : t.cursorColumn = t'.cursorColumn
  row_le : t.cursorRow ≤ t'.cursorRow
  cells : ∀ c r : Nat, (c : Int) < t.geom.vgaWidth → (r : Int) < t.geom.vgaHeight →
    block t.geom t.screen c r =
      if (row - t.cursorRow + r, c) ∈ erased then blankBlock
      else if ((r + (t'.cursorRow - t.cursorRow) : Nat) : Int) < t.geom.vgaHeight then
        block t'.geom t'.screen c (r + (t'.cursorRow - t.cursorRow))
      else blankBlock

theorem looksLike_of_erased {t t' : Terminal} {p q : Page} {erased : List (Nat × Nat)}
    (hgeom : t.geom = t'.geom) (h : Shows t q) (h' : Shows t' p)
    (herased : Page.Erased erased p q) : LooksLike t t' erased p.row := by
  have hrow := h.row
  have hrow' := h'.row
  have hsame := herased.row
  have htop := herased.top
  refine ⟨by rw [← h.col, ← h'.col, herased.col], by omega, ?_⟩
  intro c r hc hr
  have habs : p.row - t.cursorRow + r = q.top + r := by omega
  rw [h.cells c r hc hr, herased.cell, habs]
  by_cases hblank : (q.top + r, c) ∈ erased
  · rw [if_pos hblank, if_pos hblank]
  · rw [if_neg hblank, if_neg hblank]
    by_cases hin : ((r + (t'.cursorRow - t.cursorRow) : Nat) : Int) < t.geom.vgaHeight
    · have hshift : p.top + (r + (t'.cursorRow - t.cursorRow)) = q.top + r := by omega
      rw [if_pos hin, h'.cells c _ (hgeom ▸ hc) (hgeom ▸ hin), hshift]
    · rw [if_neg hin]
      rw [hgeom] at hin
      exact h'.below c (q.top + r) (by omega)

/-- Whatever the column was, after a printed character it is one of the grid. -/
theorem vgaPutc_glyph_column_lt {t : Terminal} (hg : t.geom.HasCells) {c : UInt8}
    (hc : 31 < signedChar c) (color : UInt8) :
    ((vgaPutc t c color).cursorColumn : Int) < t.geom.vgaWidth := by
  have hwidth := hg.width
  have hctl : ¬ signedChar c ≤ 31 := Int.not_le.2 hc
  rw [vgaPutc, if_neg hctl]
  refine putGlyph_cases (motive := fun t' => (t'.cursorColumn : Int) < t.geom.vgaWidth) t c color
    (fun _ => ?_) (fun hlt => hlt)
  rw [openRow_cursorColumn]
  omega

theorem prompt_in_grid {t : Terminal} (hg : t.geom.HasCells)
    (hrow : (t.cursorRow : Int) < t.geom.vgaHeight) :
    (kprintf t (cstr "ksh> ") []).geom = t.geom ∧
      ((kprintf t (cstr "ksh> ") []).cursorRow : Int) < t.geom.vgaHeight ∧
      ((kprintf t (cstr "ksh> ") []).cursorColumn : Int) < t.geom.vgaWidth := by
  -- The row is kept by every character, the column is in the grid after the last one.
  have hsplit : cstr "ksh> " = (bytes "ksh>" ++ [32]) ++ [0] := by decide
  have htext := kprintf_text t (bytes "ksh>" ++ [32]) [] (by decide)
  rw [← hsplit, List.foldl_append] at htext
  have hstep : ∀ (t' : Terminal) (c : UInt8),
      t'.geom = t.geom ∧ (t'.cursorRow : Int) < t.geom.vgaHeight →
      (vgaPutc t' c t.textColor).geom = t.geom ∧
        ((vgaPutc t' c t.textColor).cursorRow : Int) < t.geom.vgaHeight := by
    rintro t' c ⟨hgeom, hlt⟩
    rw [← hgeom] at hlt hg ⊢
    exact ⟨vgaPutc_geom t' c t.textColor, vgaPutc_cursorRow_lt hg hlt c t.textColor⟩
  have hname : ((bytes "ksh>").foldl (fun t' c => vgaPutc t' c t.textColor) t).geom = t.geom ∧
      (((bytes "ksh>").foldl (fun t' c => vgaPutc t' c t.textColor) t).cursorRow : Int) <
        t.geom.vgaHeight :=
    foldl_invariant hstep ⟨rfl, hrow⟩
  have hend := hstep _ 32 hname
  have hcol := vgaPutc_glyph_column_lt (hname.1.symm ▸ hg) (c := 32) (by decide) t.textColor
  rw [htext]
  exact ⟨hend.1, hend.2, hname.1 ▸ hcol⟩

/-- In every run of keys that edit the line behind the prompt, and whose backspaces undo the echo
of the character they remove, the screen always looks as if only the characters in the buffer had
been echoed. -/
theorem echo_shows_line (past : Nat → UInt8) (f : Framebuffer) (t : Terminal) (k₀ : Kernel)
    (hpitch : f.width ≤ f.pitch / 4) (hW : 1 ≤ (vgaInit f).vgaWidth)
    (hgeom : t.geom = vgaInit f) (hrow : (t.cursorRow : Int) < t.geom.vgaHeight)
    (hprompt : k₀.terminal = kprintf t (cstr "ksh> ") [])
    (hbuf : k₀.kbdBuf.Reachable past) (scs : List UInt8)
    (hedits : Guarded kbdHandleScancode (EditsSince k₀) k₀ scs)
    (hundoes : Guarded kbdHandleScancode (UndoesEcho k₀) k₀ scs) :
    let k := scs.foldl kbdHandleScancode k₀
    let x := (typed k₀.shiftHeld scs).foldl (Edited.key k₀.terminal) ⟨[], []⟩
    lineSince k₀ k = x.line ∧
      LooksLike k.terminal ((lineSince k₀ k).foldl echo k₀.terminal) x.erased
        (pageAfter k₀.terminal (lineSince k₀ k)).row := by
  intro k x
  have hH : 1 ≤ (vgaInit f).vgaHeight := by
    rw [← hgeom]
    omega
  have hcells : t.geom.HasCells := hgeom ▸ vgaInit_hasCells hW hH
  have hfits : t.geom.Fits := hgeom ▸ vgaInit_fits hpitch
  rcases prompt_in_grid hcells hrow with ⟨hgeom₀, hrow₀, hcol₀⟩
  rw [← hprompt] at hgeom₀ hrow₀ hcol₀
  rw [← hgeom₀] at hcells hfits hrow₀ hcol₀
  have hstart := shows_of hrow₀ hcol₀
  have hfirst : Page.Erased [] (pageAfter k₀.terminal []) (Page.of k₀.terminal) :=
    ⟨rfl, rfl, Nat.le_refl _, fun r c => (if_neg List.not_mem_nil).symm⟩
  have hempty : Follows past k₀ ⟨[], []⟩ k₀ :=
    ⟨hbuf.ok, holds_nil k₀.kbdBuf, fun _ hc => absurd hc List.not_mem_nil, rfl, rfl,
      Page.of k₀.terminal, hstart, hfirst⟩
  -- The line typed is echoed key by key; echoing only what is left gives the same page.
  have hend : Follows past k₀ x k := foldl_follows hfits hcells hstart hedits hundoes hempty
  rcases hend.page with ⟨q, hshows, herased⟩
  rcases echo_shows hfits hcells hend.noBackspace rfl rfl hstart with ⟨hgeom', hshows'⟩
  rw [hend.lineSince]
  exact ⟨rfl, looksLike_of_erased (hend.geom.trans hgeom'.symm) hshows hshows' herased⟩

/-- The state at the first prompt of a session. -/
def firstPrompt : Kernel :=
  Kernel.boot (fun _ => 0) (kprintf (started vga640 (fun _ => 0) 0x0F) (cstr "ksh> ") [])

/-- At the first prompt: `a`, backspace, `b`. -/
theorem echo_shows_line_firstPrompt :
    let k := [0x1E, 0x0E, 0x30].foldl kbdHandleScancode firstPrompt
    let x := (typed firstPrompt.shiftHeld [0x1E, 0x0E, 0x30]).foldl
      (Edited.key firstPrompt.terminal) ⟨[], []⟩
    lineSince firstPrompt k = x.line ∧
      LooksLike k.terminal ((lineSince firstPrompt k).foldl echo firstPrompt.terminal) x.erased
        (pageAfter firstPrompt.terminal (lineSince firstPrompt k)).row :=
  echo_shows_line (fun _ => 0) vga640 (started vga640 (fun _ => 0) 0x0F) firstPrompt
    (by decide) (by decide) rfl (by decide) rfl .boot [0x1E, 0x0E, 0x30]
    (by decide +kernel) (by decide +kernel)

/-- At the first prompt: escape, backspace.  The line is empty again, but the cursor is on the last
column of the prompt. -/
theorem escape_backspace_eats_prompt :
    let k := [0x01, 0x0E].foldl kbdHandleScancode firstPrompt
    typed firstPrompt.shiftHeld [0x01, 0x0E] = [27, 8] ∧ lineSince firstPrompt k = [] ∧
      firstPrompt.terminal.cursorColumn = 5 ∧ k.terminal.cursorColumn = 4 ∧
      ¬ ∃ erased row, LooksLike k.terminal ((lineSince firstPrompt k).foldl echo
        firstPrompt.terminal) erased row := by
  intro k
  have hline : lineSince firstPrompt k = [] := by decide +kernel
  have hstart : firstPrompt.terminal.cursorColumn = 5 := by decide +kernel
  have hend : k.terminal.cursorColumn = 4 := by decide +kernel
  refine ⟨by decide +kernel, hline, hstart, hend, ?_⟩
  rintro ⟨erased, row, h⟩
  have hcol := h.column
  rw [hline, List.foldl_nil, hstart, hend] at hcol
  exact absurd hcol (by decide)

end Feudos
