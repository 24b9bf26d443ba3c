import Feudos.Vga.Grid

/-!
# Newline and backspace

A backspace at the start of a row goes to column `line_len` of the row above.  It undoes a newline
if that is where the cursor was.

- `Recorded`           : the length of the cursor's row is its column, and the rows below are empty;
- `undone_iff`         : a newline can be undone when the length of the row is the column;
- `apply_recorded`     : every call keeps this, but for a tab that stays in its row;
- `newline_undone_iff` : all along a history a newline can be undone exactly when there is no such
  tab in it.
-/

namespace Feudos
namespace Vga

open CountedLoop GuardedRun

variable {t : Terminal}

/-! ## Undoing a newline -/

/-- A newline and a backspace bring the cursor back, on the row above if the newline scrolled, and
leave the length of its row as it was. -/
def NewlineUndone (t : Terminal) : Prop :=
  ∀ color color',
    let t' := vgaPutc (vgaPutc t 10 color) 8 color'
    t'.cursorColumn = t.cursorColumn ∧
    t'.cursorRow =
      (if (t.cursorRow : Int) + 1 < t.geom.vgaHeight then t.cursorRow else t.cursorRow - 1) ∧
    t'.lineLen.len t'.cursorRow = t.lineLen.len t.cursorRow

/-- The way back from the start of a row. -/
theorem putBackspace_openRow (hrow : (t.cursorRow : Int) < t.geom.vgaHeight)
    (hrows : t.geom.vgaHeight ≤ 256) (hH : 2 ≤ t.geom.vgaHeight) :
    let row := if (t.cursorRow : Int) + 1 < t.geom.vgaHeight then t.cursorRow else t.cursorRow - 1
    (putBackspace (openRow t)).cursorRow = row ∧
      (putBackspace (openRow t)).cursorColumn = (t.lineLen.len t.cursorRow).toNat ∧
      (putBackspace (openRow t)).lineLen.len row = t.lineLen.len t.cursorRow := by
  have hopen := openRow_eq hrow hrows
  by_cases hfits : (t.cursorRow : Int) + 1 < t.geom.vgaHeight
  · rw [if_pos hfits] at hopen
    obtain ⟨hrow', hcol', hlen'⟩ := putBackspace_up (t := vgaMoveCursor t 0 (t.cursorRow + 1)) rfl
      (Nat.succ_ne_zero t.cursorRow)
    simp only [if_pos hfits, hopen]
    exact ⟨hrow', hcol', hlen' t.cursorRow⟩
  · -- The row that the cursor was on is the one above it after the scroll.
    rw [if_neg hfits] at hopen
    have hpos : t.cursorRow ≠ 0 := by omega
    have hlen : (scrollLineLen t.geom t.lineLen).len (t.cursorRow - 1) =
        t.lineLen.len t.cursorRow := by
      have hsucc : t.cursorRow - 1 + 1 = t.cursorRow := by omega
      rw [scrollLineLen_len _ _ (by omega), if_pos (by omega), hsucc]
    obtain ⟨hrow', hcol', hlen'⟩ := putBackspace_up (t := vgaMoveCursor (vgaUp t) 0 t.cursorRow) rfl
      hpos
    simp only [if_neg hfits, hopen]
    exact ⟨hrow', hcol'.trans (congrArg UInt8.toNat hlen), (hlen' (t.cursorRow - 1)).trans hlen⟩

/-- A newline can be undone when the length of the cursor's row is its column. -/
theorem undone_iff (hrow : (t.cursorRow : Int) < t.geom.vgaHeight)
    (hrows : t.geom.vgaHeight ≤ 256) (hH : 2 ≤ t.geom.vgaHeight) :
    NewlineUndone t ↔ (t.lineLen.len t.cursorRow).toNat = t.cursorColumn := by
  obtain ⟨hrow', hcol', hlen'⟩ := putBackspace_openRow hrow hrows hH
  simp only [NewlineUndone, vgaPutc_newline, vgaPutc_backspace, hrow', hcol', hlen', and_true,
    forall_const]

/-! ## What is recorded of the cursor's row -/

/-- The cursor is on the screen, and the rows below it are empty. -/
structure EmptyBelow (t : Terminal) : Prop where
  row : (t.cursorRow : Int) < t.geom.vgaHeight
  empty : ∀ r : Nat, t.cursorRow < r → (r : Int) < t.geom.vgaHeight → t.lineLen.len r = 0

/-- Moreover the length of the cursor's row is the cursor's column. -/
structure Recorded (t : Terminal) : Prop extends EmptyBelow t where
  column : (t.lineLen.len t.cursorRow).toNat = t.cursorColumn

/-- A tab that stays in its row: no character is written where it passes. -/
def SkipsCells (t : Terminal) : Op → Prop
  | .putc c _ => c = 9 ∧ (u16 (t.cursorColumn + (2 - t.cursorColumn % 2)) : Int) < t.geom.vgaWidth
  | .clearScreen _ => False

instance (t : Terminal) : (op : Op) → Decidable (SkipsCells t op)
  | .putc _ _ => inferInstanceAs (Decidable (_ ∧ _))
  | .clearScreen _ => inferInstanceAs (Decidable False)

/-- The next row is empty, and so is the last one after a scroll. -/
theorem openRow_recorded (h : EmptyBelow t) (hrows : t.geom.vgaHeight ≤ 256) :
    Recorded (openRow t) := by
  have hopen := openRow_eq h.row hrows
  have hrow := h.row
  by_cases hfits : (t.cursorRow : Int) + 1 < t.geom.vgaHeight
  · rw [hopen, if_pos hfits]
    have hnext : t.lineLen.len (t.cursorRow + 1) = 0 :=
      h.empty (t.cursorRow + 1) (Nat.lt_succ_self _) (by omega)
    exact ⟨⟨hfits, fun r hr => h.empty r (Nat.lt_of_succ_lt hr)⟩, congrArg UInt8.toNat hnext⟩
  · rw [hopen, if_neg hfits]
    have hlast : (scrollLineLen t.geom t.lineLen).len t.cursorRow = 0 := by
      rw [scrollLineLen_len _ _ (by omega), if_neg hfits, if_pos (by omega)]
    refine ⟨⟨hrow, fun r hr hlt => ?_⟩, congrArg UInt8.toNat hlast⟩
    -- There is no row below the last one.
    simp only [vgaMoveCursor, vgaUp] at hr hlt
    omega

theorem printed_emptyBelow (h : EmptyBelow t) (c color : UInt8) :
    EmptyBelow (printed t c color) := by
  refine ⟨h.row, fun r hr hlt => ?_⟩
  have hne : r ≠ t.cursorRow := Nat.ne_of_gt hr
  rw [printed_len, if_neg (fun hEq => hne hEq.1)]
  exact h.empty r hr hlt

/-- A row no longer than the cursor's column is empty when the cursor leaves it upwards. -/
theorem putBackspace_emptyBelow (h : EmptyBelow t)
    (hle : (t.lineLen.len t.cursorRow).toNat ≤ t.cursorColumn) : EmptyBelow (putBackspace t) := by
  have hrow := h.row
  have hgeom : (putBackspace t).geom = t.geom := putBackspace_geom t
  by_cases hcol : t.cursorColumn = 0
  · by_cases htop : t.cursorRow = 0
    · simpa [putBackspace, hcol, htop] using h
    · obtain ⟨hrow', -, hlen'⟩ := putBackspace_up hcol htop
      refine ⟨by rw [hrow', hgeom]; omega, fun r hr hlt => ?_⟩
      rw [hrow'] at hr
      rw [hgeom] at hlt
      rw [hlen']
      by_cases hEq : r = t.cursorRow
      · rw [hEq]
        exact UInt8.toNat_inj.1 (Nat.le_zero.1 (hcol ▸ hle))
      · exact h.empty r (by omega) hlt
  · rw [putBackspace_left hcol]
    refine ⟨hrow, fun r hr hbelow => ?_⟩
    have hne : ¬ (r = t.cursorRow ∧ t.cursorColumn - 1 < (t.lineLen.len t.cursorRow).toNat) :=
      fun hEq => Nat.ne_of_gt hr hEq.1
    rw [eraseCell_len, if_neg hne]
    exact h.empty r hr hbelow

theorem putBackspace_recorded (h : Recorded t) : Recorded (putBackspace t) := by
  have hcolumn := h.column
  refine ⟨putBackspace_emptyBelow h.toEmptyBelow (Nat.le_of_eq hcolumn), ?_⟩
  by_cases hcol : t.cursorColumn = 0
  · by_cases htop : t.cursorRow = 0
    · simpa [putBackspace, hcol, htop] using hcolumn
    · obtain ⟨hrow', hcol', hlen'⟩ := putBackspace_up hcol htop
      rw [hrow', hlen', hcol']
  · have hlt := (t.lineLen.len t.cursorRow).toNat_lt
    rw [putBackspace_left hcol]
    show ((eraseCell t (t.cursorColumn - 1) t.cursorRow).lineLen.len t.cursorRow).toNat =
      t.cursorColumn - 1
    rw [eraseCell_len, if_pos ⟨rfl, by omega⟩, UInt8.toNat_ofNat', Nat.mod_eq_of_lt (by omega)]

theorem putGlyph_recorded (h : Recorded t) (hrows : t.geom.vgaHeight ≤ 256)
    (hW : t.geom.vgaWidth ≤ 255) (c color : UInt8) : Recorded (putGlyph t c color) := by
  have hcolumn := h.column
  have hlt := (t.lineLen.len t.cursorRow).toNat_lt
  have hbelow : EmptyBelow (printed t c color) := printed_emptyBelow h.toEmptyBelow c color
  -- At most 255 columns: the new length fits its byte, and the new column its 16 bits.
  refine putGlyph_cases t c color (fun _ => openRow_recorded hbelow hrows) (fun hmove => ?_)
  refine ⟨⟨hbelow.row, hbelow.empty⟩, ?_⟩
  have hnext : u16 (t.cursorColumn + 1) = t.cursorColumn + 1 := u16_of_lt (by omega)
  show ((printed t c color).lineLen.len t.cursorRow).toNat = u16 (t.cursorColumn + 1)
  rw [hnext] at hmove ⊢
  rw [printed_len, if_pos ⟨rfl, by omega⟩, UInt8.toNat_ofNat', Nat.mod_eq_of_lt (by omega)]

theorem vgaClearScreen_recorded (hH : 1 ≤ t.geom.vgaHeight) (color : UInt8) :
    Recorded (vgaClearScreen t color) := by
  have hrow : ((0 : Nat) : Int) < t.geom.vgaHeight := by omega
  exact ⟨⟨hrow, fun r _ hr => vgaClearScreen_len t color hr⟩,
    congrArg UInt8.toNat (vgaClearScreen_len t color hrow)⟩

/-- A tab that stays in its row takes the cursor away from the end of the row. -/
theorem skipsCells_column {op : Op} (h : Recorded t) (hskip : SkipsCells t op) :
    (op.apply t).cursorRow = t.cursorRow ∧
      ((op.apply t).lineLen.len t.cursorRow).toNat < (op.apply t).cursorColumn := by
  cases op with
  | clearScreen color =>
      exact absurd hskip id
  | putc c color =>
      rcases hskip with ⟨rfl, hmove⟩
      have hcolumn := h.column
      have hlt := (t.lineLen.len t.cursorRow).toNat_lt
      have hctl : signedChar 9 ≤ 31 := by decide
      have hnot : ¬ (u16 (t.cursorColumn + (2 - t.cursorColumn % 2)) : Int) ≥ t.geom.vgaWidth := by
        omega
      have hEq : Op.apply t (.putc 9 color) =
          vgaMoveCursor t (u16 (t.cursorColumn + (2 - t.cursorColumn % 2))) t.cursorRow := by
        simp [Op.apply, vgaPutc, hctl, putTab, hnot]
      rw [hEq, u16_of_lt (by omega)]
      refine ⟨rfl, ?_⟩
      show (t.lineLen.len t.cursorRow).toNat < t.cursorColumn + (2 - t.cursorColumn % 2)
      omega

/-- All other calls keep what is recorded. -/
theorem apply_recorded {op : Op} (h : Recorded t) (hrows : t.geom.vgaHeight ≤ 256)
    (hW : t.geom.vgaWidth ≤ 255) (hskip : ¬ SkipsCells t op) : Recorded (op.apply t) := by
  cases op with
  | clearScreen color =>
      have hrow := h.row
      exact vgaClearScreen_recorded (by omega) color
  | putc c color =>
      refine vgaPutc_cases t c color (fun _ => openRow_recorded h.toEmptyBelow hrows)
        (fun htab => ?_) (fun _ => putBackspace_recorded h) h
        (fun _ => putGlyph_recorded h hrows hW c color)
      exact putTab_cases t (fun _ => openRow_recorded h.toEmptyBelow hrows)
        (fun hmove => absurd ⟨htab, hmove⟩ hskip)

/-! ## Histories -/

/-- All along a history every newline can be undone by a backspace exactly when every tab of it
goes to the next row. -/
theorem newline_undone_iff (gFramebuffer : Framebuffer) (fb : Nat → UInt32) (color : UInt8)
    (ops : List Op) (hW : (vgaInit gFramebuffer).vgaWidth ≤ 255)
    (hH : 2 ≤ (vgaInit gFramebuffer).vgaHeight) :
    (∀ before, before <+: ops → NewlineUndone (history gFramebuffer fb color before)) ↔
      Guarded Op.apply (fun t op => ¬ SkipsCells t op) (started gFramebuffer fb color) ops := by
  have hrows := vgaInit_vgaHeight_le gFramebuffer
  refine always_iff_guarded (I := fun t => t.geom = vgaInit gFramebuffer ∧ Recorded t)
    ?step ?good ?bad ⟨rfl, ?start⟩
  case step =>
    rintro t op ⟨hgeom, ht⟩ hskip
    exact ⟨by rw [apply_geom, hgeom],
      apply_recorded ht (by rw [hgeom]; exact hrows) (by rw [hgeom]; exact hW) hskip⟩
  case good =>
    rintro t ⟨hgeom, ht⟩
    exact (undone_iff ht.row (by rw [hgeom]; exact hrows) (by rw [hgeom]; exact hH)).2 ht.column
  case bad =>
    rintro t op ⟨hgeom, ht⟩ hskip hundone
    obtain ⟨hrow, hlt⟩ := skipsCells_column ht (Classical.not_not.1 hskip)
    have hgeom' : (op.apply t).geom = vgaInit gFramebuffer := by rw [apply_geom, hgeom]
    have hrow' : ((op.apply t).cursorRow : Int) < (op.apply t).geom.vgaHeight := by
      rw [hrow, apply_geom]
      exact ht.row
    -- Behind such a tab the length of the row is below the column.
    have hcolumn := (undone_iff hrow' (by rw [hgeom']; exact hrows)
      (by rw [hgeom']; exact hH)).1 hundone
    rw [hrow] at hcolumn
    omega
  case start =>
    exact vgaClearScreen_recorded (t := Terminal.init gFramebuffer fb)
      (by simp only [Terminal.init]; omega) color

/-- A character, a newline and a backspace: a newline can be undone there again. -/
theorem newline_undone_iff_vga :
    NewlineUndone (history vga640 (fun _ => 0) 0x0F
      [.putc 97 0x0F, .putc 10 0x0F, .putc 8 0x0F]) :=
  (newline_undone_iff vga640 (fun _ => 0) 0x0F _ (by decide) (by decide)).2 (by decide +kernel) _
    (List.prefix_refl _)

/-- After a tab the cursor is in column 2, and a newline and a backspace take it to column 0. -/
theorem tab_not_undone :
    (vgaInit vga640).vgaWidth ≤ 255 ∧ 2 ≤ (vgaInit vga640).vgaHeight ∧
      ¬ NewlineUndone (history vga640 (fun _ => 0) 0x0F [.putc 9 0x0F]) := by
  refine ⟨by decide, by decide, fun h => ?_⟩
  have hcolumn := (h 0x0F 0x0F).1
  exact absurd hcolumn (by decide +kernel)

end Vga
end Feudos
