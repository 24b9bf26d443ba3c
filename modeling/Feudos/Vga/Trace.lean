import Feudos.Vga.Caret

/-!
# What the terminal accesses

Safety claims about the terminal say that every access satisfies some `P`.  This module reduces
them to the cells that are drawn:

- `CellOk g P col row` : `P` holds of what `draw_cell` accesses at that cell;
- `Allows g P`         : `P` holds of everything that stays inside the text grid;
- `vgaPutc_all`        : a character keeps `P`, if `P` holds at the cell it draws or erases;
- `vgaPutc_extends`    : a character adds to the trace and removes nothing from it.
-/

namespace Feudos
namespace Vga

open CountedLoop

variable {g : Geometry} {s : Screen} {t : Terminal} {P : Access → Prop}

/-- Every access made so far satisfies `P`. -/
def Screen.All (P : Access → Prop) (s : Screen) : Prop :=
  ∀ a ∈ s.trace, P a

@[simp] theorem all_note (a : Access) : (s.note a).All P ↔ P a ∧ s.All P := by
  simp [Screen.All, Screen.note]

@[simp] theorem all_store (i : Nat) (v : UInt32) :
    (s.store i v).All P ↔ P (.word (u64 i)) ∧ s.All P := by
  simp [Screen.All, Screen.store]

@[simp] theorem all_copy (dst src : Nat) :
    (s.copy dst src).All P ↔ P (.word (u64 dst)) ∧ P (.word (u64 src)) ∧ s.All P := by
  simp [Screen.copy]

/-! ## Drawing and scrolling -/

/-- `P` holds of the call of `draw_cell` at `(col, row)` and of the words it writes. -/
structure CellOk (g : Geometry) (P : Access → Prop) (col row : Nat) : Prop where
  cell : P (.cell col row)
  word : ∀ y x, y < glyphH → x < glyphW →
    P (.word (u64 ((row * glyphH + y) * g.pitchPx + (col * glyphW + x))))

theorem drawCell_all {col row : Nat} {c color : UInt8} (hs : s.All P) (hfont : P (.font c.toNat))
    (hcell : CellOk g P col row) : (drawCell g s col row c color).All P := by
  have hstart : ((s.note (.cell col row)).note (.font c.toNat)).All P := by
    simp [hfont, hcell.cell, hs]
  refine range_invariant (Screen.All P) hstart ?_
  intro y s' _ hy hs'
  refine range_invariant (Screen.All P) hs' ?_
  intro x s'' _ hx hs''
  exact (all_store _ _).2 ⟨hcell.word y x hy hx, hs''⟩

/-- `P` holds of every access inside the text grid and of the pixels that clearing writes. -/
structure Allows (g : Geometry) (P : Access → Prop) : Prop where
  font : ∀ i, i < 128 → P (.font i)
  cell : ∀ col row : Nat, (col : Int) < g.vgaWidth → (row : Int) < g.vgaHeight →
    CellOk g P col row
  pixel : ∀ x y : Nat, (x : Int) < g.vgaWidth * glyphW → (y : Int) < g.vgaHeight * glyphH →
    P (.word (u64 (y * g.pitchPx + x)))
  clear : ∀ x y : Nat, x < g.framebuffer.width → y < g.framebuffer.height →
    P (.word (u64 (y * g.pitchPx + x)))

theorem scrollPixels_all (hP : Allows g P) (hH : 1 ≤ g.vgaHeight) (hs : s.All P) :
    (scrollPixels g s).All P := by
  have hcopied : (range glyphH (g.vgaHeight * glyphH).toNat (fun y s =>
      range 0 (g.vgaWidth * glyphW).toNat (fun x s =>
        s.copy ((y - glyphH) * g.pitchPx + x) (y * g.pitchPx + x)) s) s).All P := by
    refine range_invariant (Screen.All P) hs ?_
    intro y s' _ hy hs'
    refine range_invariant (Screen.All P) hs' ?_
    intro x s'' _ hx hs''
    -- A copy reads a pixel of the text area and writes the one a glyph higher.
    have hsrc := hP.pixel x y (by omega) (by omega)
    have hdst := hP.pixel x (y - glyphH) (by omega) (by omega)
    exact (all_copy _ _).2 ⟨hdst, hsrc, hs''⟩
  -- Then the cells of the last row are cleared.
  refine range_invariant (Screen.All P) hcopied ?_
  intro x s' _ hx hs'
  exact drawCell_all hs' (hP.font _ (by decide)) (hP.cell _ _ (by omega) (by omega))

theorem openRow_all (hP : Allows t.geom P) (hH : 1 ≤ t.geom.vgaHeight) (ht : t.screen.All P) :
    (openRow t).screen.All P := by
  unfold openRow
  dsimp only
  split
  · exact scrollPixels_all hP hH ht
  · exact ht

theorem printed_all {c : UInt8} (color : UInt8) (hP : Allows t.geom P) (hc : 31 < signedChar c)
    (hcell : CellOk t.geom P t.cursorColumn t.cursorRow) (ht : t.screen.All P) :
    (printed t c color).screen.All P :=
  drawCell_all ht (hP.font _ ((signedChar_gt_iff c).1 hc).2) hcell

theorem eraseCell_all {col row : Nat} (hP : Allows t.geom P) (hcell : CellOk t.geom P col row)
    (ht : t.screen.All P) : (eraseCell t col row).screen.All P :=
  drawCell_all ht (hP.font _ (by decide)) hcell

/-- A character keeps `P`: printing needs it at the cursor, erasing at the cell it moves to. -/
theorem vgaPutc_all {c color : UInt8} (hP : Allows t.geom P) (hH : 1 ≤ t.geom.vgaHeight)
    (hcursor : CellOk t.geom P t.cursorColumn t.cursorRow)
    (hup : c = 8 → t.cursorColumn = 0 → t.cursorRow ≠ 0 →
      CellOk t.geom P (t.lineLen.len (t.cursorRow - 1)).toNat (t.cursorRow - 1))
    (hleft : c = 8 → t.cursorColumn ≠ 0 → CellOk t.geom P (t.cursorColumn - 1) t.cursorRow)
    (ht : t.screen.All P) : (vgaPutc t c color).screen.All P := by
  refine vgaPutc_cases (motive := fun t' => t'.screen.All P) t c color
    (fun _ => openRow_all hP hH ht) (fun _ => ?_) (fun hc => ?_) ht (fun hc => ?_)
  · exact putTab_cases (motive := fun t' => t'.screen.All P) t
      (fun _ => openRow_all hP hH ht) (fun _ => ht)
  · exact putBackspace_cases (motive := fun t' => t'.screen.All P) t (fun _ _ => ht)
      (fun hcol hrow => eraseCell_all hP (hup hc hcol hrow) ht)
      (fun hcol => eraseCell_all hP (hleft hc hcol) ht)
  · have hprinted := printed_all color hP hc hcursor ht
    exact putGlyph_cases (motive := fun t' => t'.screen.All P) t c color
      (fun _ => openRow_all hP hH hprinted) (fun _ => hprinted)

theorem vgaClearScreen_all {color : UInt8} (hP : Allows t.geom P) (ht : t.screen.All P) :
    (vgaClearScreen t color).screen.All P := by
  refine range_invariant (Screen.All P) ht ?_
  intro y s' _ hy hs'
  refine range_invariant (Screen.All P) hs' ?_
  intro x s'' _ hx hs''
  exact (all_store _ _).2 ⟨hP.clear x y hx hy, hs''⟩

/-! ## Traces only grow -/

/-- Every access recorded in `s` is recorded in `s'`. -/
def Screen.Extends (s s' : Screen) : Prop :=
  ∀ a ∈ s.trace, a ∈ s'.trace

theorem extends_refl (s : Screen) : s.Extends s :=
  fun _ h => h

theorem Screen.Extends.trans {s s' s'' : Screen} (h : s.Extends s') (h' : s'.Extends s'') :
    s.Extends s'' :=
  fun a ha => h' a (h a ha)

theorem extends_note (s : Screen) (a : Access) : s.Extends (s.note a) :=
  fun _ h => List.mem_cons_of_mem _ h

theorem extends_store (s : Screen) (i : Nat) (v : UInt32) : s.Extends (s.store i v) :=
  fun _ h => List.mem_cons_of_mem _ h

theorem extends_copy (s : Screen) (dst src : Nat) : s.Extends (s.copy dst src) :=
  (extends_note s _).trans (extends_store _ _ _)

theorem range_extends {lo hi : Nat} {body : Nat → Screen → Screen}
    (h : ∀ (i : Nat) (s : Screen), s.Extends (body i s)) (s : Screen) :
    s.Extends (range lo hi body s) :=
  range_invariant (fun s' => s.Extends s') (extends_refl s)
    (fun i s' _ _ hs' => hs'.trans (h i s'))

theorem drawCell_extends_noted (g : Geometry) (s : Screen) (col row : Nat) (c color : UInt8) :
    ((s.note (.cell col row)).note (.font c.toNat)).Extends (drawCell g s col row c color) :=
  range_extends (fun _ s' => range_extends (fun _ s'' => extends_store s'' _ _) s') _

theorem drawCell_extends (g : Geometry) (s : Screen) (col row : Nat) (c color : UInt8) :
    s.Extends (drawCell g s col row c color) :=
  ((extends_note s _).trans (extends_note _ _)).trans (drawCell_extends_noted g s col row c color)

theorem cell_mem_drawCell (g : Geometry) (s : Screen) (col row : Nat) (c color : UInt8) :
    Access.cell col row ∈ (drawCell g s col row c color).trace :=
  drawCell_extends_noted g s col row c color _ (by simp [Screen.note])

theorem scrollPixels_extends (g : Geometry) (s : Screen) : s.Extends (scrollPixels g s) := by
  unfold scrollPixels
  dsimp only
  refine Screen.Extends.trans (range_extends (fun y s' => ?_) s) (range_extends (fun x s' => ?_) _)
  · exact range_extends (fun x s'' => extends_copy s'' _ _) s'
  · exact drawCell_extends g s' _ _ _ _

theorem openRow_extends (t : Terminal) : t.screen.Extends (openRow t).screen := by
  unfold openRow
  dsimp only
  split
  · exact scrollPixels_extends t.geom t.screen
  · exact extends_refl _

theorem vgaPutc_extends (t : Terminal) (c color : UInt8) :
    t.screen.Extends (vgaPutc t c color).screen := by
  refine vgaPutc_cases (motive := fun t' => t.screen.Extends t'.screen) t c color
    (fun _ => openRow_extends t) (fun _ => ?_) (fun _ => ?_) (extends_refl _) (fun _ => ?_)
  · exact putTab_cases (motive := fun t' => t.screen.Extends t'.screen) t
      (fun _ => openRow_extends t) (fun _ => extends_refl _)
  · exact putBackspace_cases (motive := fun t' => t.screen.Extends t'.screen) t
      (fun _ _ => extends_refl _) (fun _ _ => drawCell_extends _ _ _ _ _ _)
      (fun _ => drawCell_extends _ _ _ _ _ _)
  · have hprinted : t.screen.Extends (printed t c color).screen := drawCell_extends _ _ _ _ _ _
    exact putGlyph_cases (motive := fun t' => t.screen.Extends t'.screen) t c color
      (fun _ => hprinted.trans (openRow_extends _)) (fun _ => hprinted)

theorem apply_extends (t : Terminal) (op : Op) : t.screen.Extends (op.apply t).screen := by
  cases op with
  | putc c color =>
      exact vgaPutc_extends t c color
  | clearScreen color =>
      exact range_extends (fun _ s' => range_extends (fun _ s'' => extends_store s'' _ _) s') _

end Vga
end Feudos
