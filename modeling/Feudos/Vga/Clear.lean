import Feudos.Vga.Pixels

/-!
# Clearing the screen

Two terminals on the same framebuffer are *alike* when they show the same picture and have the same
cursor and the same line lengths.

- `vgaPutc_alike`        : alike terminals stay alike;
- `vgaClearScreen_alike` : clearing makes any two terminals alike;
- `clear_forgets`        : nothing that happened before a clear can be seen after it.

The relation does not mention the words between the end of a pixel row and its pitch, nor the line
lengths of rows that are not on the screen: no call copies them to where they could be seen.
-/

namespace Feudos
namespace Vga

open CountedLoop

variable {g : Geometry} {s s' : Screen} {t t' : Terminal}

/-! ## The same picture -/

/-- The visible pixels are the same. -/
def SamePicture (g : Geometry) (s s' : Screen) : Prop :=
  ∀ x y, x < g.framebuffer.width → y < g.framebuffer.height → pixel g s x y = pixel g s' x y

theorem store_samePicture (h : SamePicture g s s') (i : Nat) (v : UInt32) :
    SamePicture g (s.store i v) (s'.store i v) := by
  intro x y hx hy
  have hxy := h x y hx hy
  simp only [pixel, Screen.store, Function.update_apply] at hxy ⊢
  split
  · rfl
  · exact hxy

/-- A copy from a visible pixel. -/
theorem copy_samePicture (h : SamePicture g s s') (i : Nat) {x y : Nat}
    (hx : x < g.framebuffer.width) (hy : y < g.framebuffer.height) :
    SamePicture g (s.copy i (y * g.pitchPx + x)) (s'.copy i (y * g.pitchPx + x)) := by
  have hsrc : s.fb (u64 (y * g.pitchPx + x)) = s'.fb (u64 (y * g.pitchPx + x)) := h x y hx hy
  rw [Screen.copy, Screen.copy, hsrc]
  exact store_samePicture h i _

theorem drawCell_samePicture (h : SamePicture g s s') (col row : Nat) (c color : UInt8) :
    SamePicture g (drawCell g s col row c color) (drawCell g s' col row c color) := by
  have hnoted : SamePicture g ((s.note (.cell col row)).note (.font c.toNat))
      ((s'.note (.cell col row)).note (.font c.toNat)) := h
  simp only [drawCell]
  refine range_relation (SamePicture g) hnoted (fun y s s' _ _ hrows => ?_)
  exact range_relation (SamePicture g) hrows (fun x s s' _ _ h => store_samePicture h _ _)

/-- What scrolling moves is visible. -/
theorem scrollPixels_samePicture (hwidth : g.vgaWidth * 8 ≤ g.framebuffer.width)
    (hheight : g.vgaHeight * 8 ≤ g.framebuffer.height) (h : SamePicture g s s') :
    SamePicture g (scrollPixels g s) (scrollPixels g s') := by
  simp only [scrollPixels]
  refine range_relation (SamePicture g) ?copied
    (fun x s s' _ _ h => drawCell_samePicture h x _ 32 0x07)
  case copied =>
    refine range_relation (SamePicture g) h (fun y s s' _ hy hrows => ?_)
    refine range_relation (SamePicture g) hrows (fun x s s' _ hx h => ?_)
    simp only [glyphW] at hx
    simp only [glyphH] at hy
    exact copy_samePicture h _ (by omega) (by omega)

/-- A row of stores of one colour: what has that colour keeps it. -/
theorem clearRow_pixel (g : Geometry) (s : Screen) (bg : UInt32) (y n : Nat) :
    (∀ i, s.fb i = bg → (range 0 n (fun x s => s.store (y * g.pitchPx + x) bg) s).fb i = bg) ∧
      ∀ x, x < n →
        pixel g (range 0 n (fun x s => s.store (y * g.pitchPx + x) bg) s) x y = bg := by
  refine range_induction 0 n (fun x s => s.store (y * g.pitchPx + x) bg) s
    (fun m s' => (∀ i, s.fb i = bg → s'.fb i = bg) ∧ ∀ x, x < m → pixel g s' x y = bg)
    (Nat.zero_le n) ⟨fun _ h => h, fun x hx => absurd hx (Nat.not_lt_zero x)⟩ ?_
  rintro m s' - - ⟨hkeep, hrow⟩
  refine ⟨fun i hi => ?_, fun x hx => ?_⟩
  · simp only [Screen.store, Function.update_apply, hkeep i hi, ite_self]
  · -- Should the stores of a row overlap, they store the same colour.
    have hold : x < m → pixel g s' x y = bg := hrow x
    simp only [pixel, Screen.store, Function.update_apply] at hold ⊢
    split
    · rfl
    · next hne =>
        refine hold (Nat.lt_of_le_of_ne (Nat.lt_succ_iff.1 hx) ?_)
        rintro rfl
        exact hne rfl

/-- After a clear every visible pixel has the background colour, whatever the pitch is. -/
theorem vgaClearScreen_pixel (t : Terminal) (color : UInt8) {x y : Nat}
    (hx : x < t.geom.framebuffer.width) (hy : y < t.geom.framebuffer.height) :
    pixel t.geom (vgaClearScreen t color).screen x y = bgRgb color := by
  have hrows := range_induction 0 t.geom.framebuffer.height
    (fun y s => range 0 t.geom.framebuffer.width
      (fun x s => s.store (y * t.geom.pitchPx + x) (bgRgb color)) s) t.screen
    (fun n s => ∀ x y, x < t.geom.framebuffer.width → y < n →
      pixel t.geom s x y = bgRgb color)
    (Nat.zero_le _) (fun x y _ hy => absurd hy (Nat.not_lt_zero y)) (by
      intro n s _ _ hI x y hx hy
      obtain ⟨hkeep, hrow⟩ :=
        clearRow_pixel t.geom s (bgRgb color) n t.geom.framebuffer.width
      -- Row `n` has just been filled, and what is above it keeps its colour.
      by_cases hlast : y = n
      · subst hlast
        exact hrow x hx
      · exact hkeep _ (hI x y hx (by omega)))
  exact hrows x y hx hy

/-! ## Alike terminals -/

/-- The same framebuffer, picture, cursor and line lengths; the cursor is on the screen. -/
structure Alike (t t' : Terminal) : Prop where
  geom : t.geom = t'.geom
  picture : SamePicture t.geom t.screen t'.screen
  cursorRow : t.cursorRow = t'.cursorRow
  cursorColumn : t.cursorColumn = t'.cursorColumn
  row : (t.cursorRow : Int) < t.geom.vgaHeight
  lineLen : ∀ r : Nat, (r : Int) < t.geom.vgaHeight → t.lineLen.len r = t'.lineLen.len r

/-- The framebuffer is one that `vga_init` was called with, and has a text row. -/
structure Geometry.Inside (g : Geometry) : Prop where
  width_le : g.vgaWidth * 8 ≤ g.framebuffer.width
  height_le : g.vgaHeight * 8 ≤ g.framebuffer.height
  rows : 1 ≤ g.vgaHeight
  rows_le : g.vgaHeight ≤ 256

theorem vgaClearScreen_alike (hgeom : t.geom = t'.geom) (hrows : 1 ≤ t.geom.vgaHeight)
    (color : UInt8) : Alike (vgaClearScreen t color) (vgaClearScreen t' color) where
  geom := hgeom
  picture := by
    intro x y hx hy
    have hleft : pixel t.geom (vgaClearScreen t color).screen x y = bgRgb color :=
      vgaClearScreen_pixel t color hx hy
    have hright : pixel t'.geom (vgaClearScreen t' color).screen x y = bgRgb color :=
      vgaClearScreen_pixel t' color (hgeom ▸ hx) (hgeom ▸ hy)
    rw [← hgeom] at hright
    exact hleft.trans hright.symm
  cursorRow := rfl
  cursorColumn := rfl
  row := by
    show ((0 : Nat) : Int) < t.geom.vgaHeight
    omega
  lineLen := by
    intro r hr
    rw [vgaClearScreen_len t color hr, vgaClearScreen_len t' color (hgeom ▸ hr)]

theorem moveCursor_alike (h : Alike t t') (x : Nat) {y : Nat} (hy : (y : Int) < t.geom.vgaHeight) :
    Alike (vgaMoveCursor t x y) (vgaMoveCursor t' x y) :=
  ⟨h.geom, h.picture, rfl, rfl, hy, h.lineLen⟩

theorem openRow_alike (hg : t.geom.Inside) (h : Alike t t') : Alike (openRow t) (openRow t') := by
  have hrow' : (t'.cursorRow : Int) < t'.geom.vgaHeight := by
    rw [← h.geom, ← h.cursorRow]
    exact h.row
  rw [openRow_eq h.row hg.rows_le, openRow_eq hrow' (h.geom ▸ hg.rows_le), ← h.geom, ← h.cursorRow]
  by_cases hfits : (t.cursorRow : Int) + 1 < t.geom.vgaHeight
  · rw [if_pos hfits, if_pos hfits]
    exact ⟨h.geom, h.picture, rfl, rfl, hfits, h.lineLen⟩
  · rw [if_neg hfits, if_neg hfits]
    -- Both scroll: the pixels and the lengths that move up are those that are the same.
    refine ⟨h.geom, ?_, rfl, rfl, h.row, ?_⟩
    · show SamePicture t.geom (scrollPixels t.geom t.screen) (scrollPixels t'.geom t'.screen)
      rw [← h.geom]
      exact scrollPixels_samePicture hg.width_le hg.height_le h.picture
    · intro r hr
      show (scrollLineLen t.geom t.lineLen).len r = (scrollLineLen t'.geom t'.lineLen).len r
      rw [← h.geom, scrollLineLen_len _ _ hg.rows, scrollLineLen_len _ _ hg.rows]
      by_cases hnext : (r : Int) + 1 < t.geom.vgaHeight
      · rw [if_pos hnext, if_pos hnext]
        exact h.lineLen (r + 1) hnext
      · have hlast : (r : Int) + 1 = t.geom.vgaHeight := by
          have hr' : (r : Int) < t.geom.vgaHeight := hr
          omega
        rw [if_neg hnext, if_neg hnext, if_pos hlast, if_pos hlast]

theorem printed_alike (h : Alike t t') (c color : UInt8) :
    Alike (printed t c color) (printed t' c color) := by
  refine ⟨h.geom, ?_, h.cursorRow, h.cursorColumn, h.row, fun r hr => ?_⟩
  · show SamePicture t.geom (drawCell t.geom t.screen t.cursorColumn t.cursorRow c color)
      (drawCell t'.geom t'.screen t'.cursorColumn t'.cursorRow c color)
    rw [← h.geom, ← h.cursorColumn, ← h.cursorRow]
    exact drawCell_samePicture h.picture _ _ c color
  · have hlen : t.lineLen.len r = t'.lineLen.len r := h.lineLen r hr
    rw [printed_len, printed_len, ← h.cursorRow, ← h.cursorColumn, h.lineLen t.cursorRow h.row,
      hlen]

theorem eraseCell_alike (h : Alike t t') (col : Nat) {row : Nat}
    (hrow : (row : Int) < t.geom.vgaHeight) :
    Alike (eraseCell t col row) (eraseCell t' col row) := by
  refine ⟨h.geom, ?_, rfl, rfl, hrow, fun r hr => ?_⟩
  · show SamePicture t.geom (drawCell t.geom t.screen col row 32 0)
      (drawCell t'.geom t'.screen col row 32 0)
    rw [← h.geom]
    exact drawCell_samePicture h.picture col row 32 0
  · have hlen : t.lineLen.len r = t'.lineLen.len r := h.lineLen r hr
    rw [eraseCell_len, eraseCell_len, h.lineLen row hrow, hlen]

theorem putBackspace_alike (h : Alike t t') : Alike (putBackspace t) (putBackspace t') := by
  have hrow := h.row
  simp only [putBackspace, ← h.cursorRow, ← h.cursorColumn]
  by_cases hcol : t.cursorColumn = 0
  · rw [if_pos hcol, if_pos hcol]
    by_cases htop : t.cursorRow = 0
    · rw [if_pos htop, if_pos htop]
      exact h
    · -- The length that gives the column is that of a row on the screen.
      have habove : ((t.cursorRow - 1 : Nat) : Int) < t.geom.vgaHeight := by omega
      have htouched : Alike { t with lineLen := t.lineLen.touch (t.cursorRow - 1) }
          { t' with lineLen := t'.lineLen.touch (t.cursorRow - 1) } :=
        ⟨h.geom, h.picture, h.cursorRow, h.cursorColumn, h.row, h.lineLen⟩
      rw [if_neg htop, if_neg htop]
      simp only [touch_len, ← h.lineLen (t.cursorRow - 1) habove]
      exact eraseCell_alike htouched _ habove
  · rw [if_neg hcol, if_neg hcol]
    exact eraseCell_alike h _ hrow

theorem putTab_alike (hg : t.geom.Inside) (h : Alike t t') : Alike (putTab t) (putTab t') := by
  simp only [putTab, ← h.cursorColumn, ← h.cursorRow, ← h.geom]
  split
  · exact openRow_alike hg h
  · exact moveCursor_alike h _ h.row

theorem putGlyph_alike (hg : t.geom.Inside) (h : Alike t t') (c color : UInt8) :
    Alike (putGlyph t c color) (putGlyph t' c color) := by
  rw [putGlyph_eq, putGlyph_eq, ← h.cursorColumn, ← h.cursorRow, ← h.geom]
  split
  · exact openRow_alike hg (printed_alike h c color)
  · exact moveCursor_alike (printed_alike h c color) _ h.row

/-- Alike terminals stay alike. -/
theorem vgaPutc_alike (hg : t.geom.Inside) (h : Alike t t') (c color : UInt8) :
    Alike (vgaPutc t c color) (vgaPutc t' c color) := by
  unfold vgaPutc
  split
  · split
    · exact openRow_alike hg h
    · split
      · exact putTab_alike hg h
      · split
        · exact putBackspace_alike h
        · exact h
  · exact putGlyph_alike hg h c color

theorem apply_alike (hg : t.geom.Inside) (h : Alike t t') (op : Op) :
    Alike (op.apply t) (op.apply t') := by
  cases op with
  | putc c color =>
      exact vgaPutc_alike hg h c color
  | clearScreen color =>
      exact vgaClearScreen_alike h.geom hg.rows color

/-! ## Histories -/

theorem vgaInit_insideGeometry {f : Framebuffer} (hH : 1 ≤ (vgaInit f).vgaHeight) :
    (vgaInit f).Inside :=
  ⟨vgaInit_width_le f, vgaInit_height_le f, hH, vgaInit_vgaHeight_le f⟩

/-- Whatever happened on a framebuffer before the screen is cleared, with whatever contents it
started, the picture, the cursor and the line lengths after the clear and any further calls are the
same. -/
theorem clear_forgets (f : Framebuffer) (hH : 1 ≤ (vgaInit f).vgaHeight)
    (fb fb' : Nat → UInt32) (start start' : UInt8) (ops ops' : List Op) (color : UInt8)
    (continuation : List Op) :
    let t := continuation.foldl Op.apply (vgaClearScreen (history f fb start ops) color)
    let t' := continuation.foldl Op.apply (vgaClearScreen (history f fb' start' ops') color)
    (∀ x y, x < f.width → y < f.height →
      pixel (vgaInit f) t.screen x y = pixel (vgaInit f) t'.screen x y) ∧
    t.cursorRow = t'.cursorRow ∧ t.cursorColumn = t'.cursorColumn ∧
    ∀ r : Nat, (r : Int) < (vgaInit f).vgaHeight → t.lineLen.len r = t'.lineLen.len r := by
  intro t t'
  have hgeom := history_geom f fb start ops
  have hgeom' := history_geom f fb' start' ops'
  have hclear : Alike (vgaClearScreen (history f fb start ops) color)
      (vgaClearScreen (history f fb' start' ops') color) :=
    vgaClearScreen_alike (hgeom.trans hgeom'.symm) (by rw [hgeom]; exact hH) color
  have hrun : t.geom = vgaInit f ∧ Alike t t' :=
    List.foldl_rel (r := fun t t' => t.geom = vgaInit f ∧ Alike t t') ⟨hgeom, hclear⟩
      (fun op _ t t' h => ⟨by rw [apply_geom, h.1],
        apply_alike (by rw [h.1]; exact vgaInit_insideGeometry hH) h.2 op⟩)
  obtain ⟨hgeomEnd, hend⟩ := hrun
  have hpicture := hend.picture
  have hlen := hend.lineLen
  rw [hgeomEnd] at hpicture hlen
  exact ⟨hpicture, hend.cursorRow, hend.cursorColumn, hlen⟩

/-- A character, the newlines that scroll it away, and a backspace. -/
def scrollAway : List Op :=
  .putc 66 0x0F :: List.replicate 60 (.putc 10 0x0F) ++ [.putc 8 0x0F]

/-- A clear behind a character, or behind nothing, on memory of different contents. -/
theorem clear_forgets_vga :
    1 ≤ (vgaInit vga640).vgaHeight ∧
      let t := scrollAway.foldl Op.apply
        (vgaClearScreen (history vga640 (fun _ => 7) 0x0F [.putc 65 0x0F]) 0x1F)
      let t' := scrollAway.foldl Op.apply
        (vgaClearScreen (history vga640 (fun _ => 0) 0x0F []) 0x1F)
      (∀ x y, x < vga640.width → y < vga640.height →
        pixel (vgaInit vga640) t.screen x y = pixel (vgaInit vga640) t'.screen x y) ∧
      t.cursorRow = t'.cursorRow ∧ t.cursorColumn = t'.cursorColumn ∧
      ∀ r : Nat, (r : Int) < (vgaInit vga640).vgaHeight → t.lineLen.len r = t'.lineLen.len r :=
  ⟨by decide, clear_forgets vga640 (by decide) (fun _ => 7) (fun _ => 0) 0x0F 0x0F
    [.putc 65 0x0F] [] 0x1F scrollAway⟩

end Vga
end Feudos
