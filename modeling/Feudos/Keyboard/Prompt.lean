import Feudos.Keyboard.Echo
import Feudos.Vga.Frame
import Feudos.Vga.Layout

/-!
# Typing behind the prompt

`kbd_buf_pop` removes nothing from an empty buffer, but the echo of a backspace is not asked
whether there was something to remove: it blanks the cell on the left, which may be one of the
prompt, or goes up to where `line_len` ends the row above.

`prompt_kept` says that the prompt and everything before it stay on the screen, up to scrolling, in
every run whose backspaces blank a cell behind the prompt.
-/

namespace Feudos

open Vga GuardedRun

/-! ## A session at the prompt -/

/-- The state while the shell waits in `kbd_readline`, and how often the screen has scrolled since
the prompt. -/
structure Session where
  kernel : Kernel
  scrolled : Nat

/-- An interrupt of the keyboard. -/
def Session.key (s : Session) (sc : UInt8) : Session :=
  { kernel := kbdHandleScancode s.kernel sc
    scrolled :=
      match decode s.kernel.shiftHeld sc with
      | none => s.scrolled
      | some c => s.scrolled + scrolls s.kernel.terminal c }

theorem foldl_key_kernel (s : Session) (scs : List UInt8) :
    (scs.foldl Session.key s).kernel = scs.foldl kbdHandleScancode s.kernel := by
  induction scs generalizing s with
  | nil =>
      rfl
  | cons sc scs ih =>
      exact ih (s.key sc)

/-- The character of the key, if any, stays behind the prompt of `k₀`. -/
def StaysBehindPrompt (k₀ : Kernel) (s : Session) (sc : UInt8) : Prop :=
  ∀ c ∈ decode s.kernel.shiftHeld sc, StaysAfter k₀.terminal s.scrolled s.kernel.terminal c

instance (k₀ : Kernel) (s : Session) (sc : UInt8) : Decidable (StaysBehindPrompt k₀ s sc) :=
  inferInstanceAs (Decidable (∀ c ∈ decode s.kernel.shiftHeld sc, _))

theorem key_kept {k₀ : Kernel} {s : Session} {sc : UInt8} (h₀ : Framed k₀.terminal)
    (h : Kept k₀.terminal s.scrolled s.kernel.terminal) (hstays : StaysBehindPrompt k₀ s sc) :
    Kept k₀.terminal (s.key sc).scrolled (s.key sc).kernel.terminal := by
  unfold Session.key
  rw [kbdHandleScancode_eq]
  cases hdecode : decode s.kernel.shiftHeld sc with
  | none =>
      exact h
  | some c =>
      exact vgaPutc_kept h₀ h s.kernel.terminal.textColor (hstays c hdecode)

/-- The cursor behind the prompt is in the grid, so nothing has been typed over yet. -/
theorem kept_start {t₀ : Terminal} (h₀ : Framed t₀)
    (hcol : (t₀.cursorColumn : Int) < t₀.geom.vgaWidth) : Kept t₀ 0 t₀ := by
  have hwidth := h₀.fits.width_le
  have hpitch := h₀.fits.pitch
  have hafter : After t₀ 0 t₀.cursorRow t₀.cursorColumn :=
    Or.inr ⟨Nat.zero_add _, Nat.le_refl _, Or.inr (by omega)⟩
  exact ⟨rfl, h₀.row, Or.inl hcol, hafter, fun r c _ _ _ => rfl⟩

/-! ## The prompt is kept -/

theorem prompt_geom (t : Terminal) : (kprintf t (cstr "ksh> ") []).geom = t.geom := by
  have hsplit : cstr "ksh> " = bytes "ksh> " ++ [0] := by decide
  rw [hsplit, kprintf_text t (bytes "ksh> ") [] (by decide)]
  exact foldl_invariant (I := fun t' : Terminal => t'.geom = t.geom)
    (fun t' c h => (vgaPutc_geom t' c t.textColor).trans h) rfl

/-- In every run of keys that stay behind the prompt, every cell before the end of the prompt is
shown as it was, moved up by the number of scrolls, or it has scrolled off. -/
theorem prompt_kept (f : Framebuffer) (t : Terminal) (k₀ : Kernel)
    (hpitch : f.width ≤ f.pitch / 4) (hgeom : t.geom = vgaInit f)
    (hrow : (t.cursorRow : Int) < t.geom.vgaHeight)
    (hprompt : k₀.terminal = kprintf t (cstr "ksh> ") []) (scs : List UInt8)
    (hstays : Guarded Session.key (StaysBehindPrompt k₀) ⟨k₀, 0⟩ scs) :
    let s := scs.foldl Session.key ⟨k₀, 0⟩
    s.kernel = scs.foldl kbdHandleScancode k₀ ∧
      KeepsCells k₀.terminal s.scrolled s.kernel.terminal.screen := by
  intro s
  refine ⟨foldl_key_kernel ⟨k₀, 0⟩ scs, ?_⟩
  have hgeom₀ : k₀.terminal.geom = vgaInit f := by rw [hprompt, prompt_geom, hgeom]
  by_cases hW : 1 ≤ (vgaInit f).vgaWidth
  · rw [hgeom] at hrow
    have hcells : (vgaInit f).HasCells := vgaInit_hasCells hW (by omega)
    obtain ⟨-, hrow₀, hcol₀⟩ := prompt_in_grid (hgeom ▸ hcells) (hgeom ▸ hrow)
    rw [← hprompt, hgeom, ← hgeom₀] at hrow₀ hcol₀
    have h₀ : Framed k₀.terminal :=
      ⟨hgeom₀ ▸ vgaInit_fits hpitch, hgeom₀ ▸ vgaInit_words_le f, hgeom₀ ▸ hcells.height_le, hrow₀⟩
    -- The invariant of the run; the cells are a part of it.
    have hend : Kept k₀.terminal s.scrolled s.kernel.terminal :=
      Guarded.invariant (I := fun s : Session => Kept k₀.terminal s.scrolled s.kernel.terminal)
        (fun _ _ h hkey => key_kept h₀ h hkey) (kept_start h₀ hcol₀) hstays
    exact hend.cells
  · -- A screen without columns shows no cell.
    intro r c _ hc _
    rw [hgeom₀] at hc
    omega

/-- At the first prompt: `a`, backspace, `b`. -/
theorem prompt_kept_firstPrompt :
    let s := [0x1E, 0x0E, 0x30].foldl Session.key ⟨firstPrompt, 0⟩
    s.kernel = [0x1E, 0x0E, 0x30].foldl kbdHandleScancode firstPrompt ∧
      KeepsCells firstPrompt.terminal s.scrolled s.kernel.terminal.screen :=
  prompt_kept vga640 (started vga640 (fun _ => 0) 0x0F) firstPrompt (by decide) rfl (by decide) rfl
    [0x1E, 0x0E, 0x30] (by decide +kernel)

/-! ## A backspace too many -/

/-- A backspace blanks the cell on the left of the cursor, whatever it shows. -/
theorem putBackspace_blanks {g : Geometry} {t : Terminal} {col row : Nat} (hf : g.Fits)
    (hgeom : t.geom = g) (hleft : t.cursorColumn = col + 1) (hrow : t.cursorRow = row)
    (hcol : (col : Int) < g.vgaWidth) (hrow_lt : (row : Int) < g.vgaHeight) :
    block g (putBackspace t).screen col row = blankBlock := by
  have hne : t.cursorColumn ≠ 0 := by omega
  have hcolumn : t.cursorColumn - 1 = col := by omega
  rw [putBackspace_left hne, hcolumn, hrow, eraseCell_screen, hgeom,
    block_drawCell hf 32 0 hcol hrow_lt hcol hrow_lt, if_pos ⟨rfl, rfl⟩]
  exact glyphBlock_space (by decide)

theorem key_backspace (s : Session) :
    (s.key 0x0E).kernel.terminal = putBackspace s.kernel.terminal := by
  have hdecode : decode s.kernel.shiftHeld 0x0E = some 8 := by
    cases s.kernel.shiftHeld <;> decide
  simp only [Session.key, kbdHandleScancode_eq, hdecode, vgaPutc_backspace]

/-- The fourth cell of the first prompt shows `>`. -/
theorem firstPrompt_block :
    block firstPrompt.terminal.geom firstPrompt.terminal.screen 3 0 = glyphBlock 62 0x0F := by
  let text : List (UInt8 × UInt8) := (bytes "ksh> ").map (fun c => (c, 0x0F))
  let start := started vga640 (fun _ => 0) 0x0F
  have hf : (vgaInit vga640).Fits := vgaInit_fits (by decide)
  have hg : (vgaInit vga640).HasCells := vgaInit_hasCells (by decide) (by decide)
  have hsplit : cstr "ksh> " = bytes "ksh> " ++ [0] := by decide
  have hprompt : firstPrompt.terminal = text.foldl (fun t x => vgaPutc t x.1 x.2) start := by
    show kprintf start (cstr "ksh> ") [] = _
    rw [hsplit, kprintf_text start (bytes "ksh> ") [] (by decide), List.foldl_map]
    rfl
  have hempty : Vga.Follows vga640 80 60 start start Layout.empty :=
    ⟨rfl, started_shows hf hg (by decide) (fun _ => 0) (by decide), by decide,
      fun _ _ _ _ _ => rfl⟩
  have htext : ∀ x ∈ text, x.1 ≠ 8 := by decide
  have hend := follows_text hf hg (by decide) (by decide) (by decide) htext hempty
  -- The screen shows the layout of the prompt, whose fourth cell is the `>`.
  rw [hprompt, hend.shows_page.cells 3 0 (by rw [hend.geom]; decide) (by rw [hend.geom]; decide)]
  have hcell : (Layout.ofText 80 text).cell 0 3 = some (62, 0x0F) := by decide
  exact congrArg Layout.cellBlock hcell

/-- At the first prompt: backspace, backspace.  Nothing was typed, and the second backspace erases
the `>` of the prompt. -/
theorem backspaces_erase_prompt :
    let s := [0x0E, 0x0E].foldl Session.key ⟨firstPrompt, 0⟩
    typed firstPrompt.shiftHeld [0x0E, 0x0E] = [8, 8] ∧ s.scrolled = 0 ∧
      Before firstPrompt.terminal 0 3 ∧
      block firstPrompt.terminal.geom firstPrompt.terminal.screen 3 0 = glyphBlock 62 0x0F ∧
      block firstPrompt.terminal.geom s.kernel.terminal.screen 3 0 = blankBlock ∧
      ¬ KeepsCells firstPrompt.terminal s.scrolled s.kernel.terminal.screen := by
  intro s
  have hfits : firstPrompt.terminal.geom.Fits := by
    have hgeom : firstPrompt.terminal.geom = vgaInit vga640 :=
      prompt_geom (started vga640 (fun _ => 0) 0x0F)
    exact hgeom ▸ vgaInit_fits (by decide)
  have hscrolled : s.scrolled = 0 := by decide +kernel
  have hbefore : Before firstPrompt.terminal 0 3 := by decide +kernel
  have hblank : block firstPrompt.terminal.geom s.kernel.terminal.screen 3 0 = blankBlock := by
    have hkeys : s.kernel.terminal = putBackspace (putBackspace firstPrompt.terminal) := by
      simp only [s, List.foldl_cons, List.foldl_nil, key_backspace]
    rw [hkeys]
    exact putBackspace_blanks hfits (putBackspace_geom _) (by decide +kernel) (by decide +kernel)
      (by decide +kernel) (by decide +kernel)
  refine ⟨by decide +kernel, hscrolled, hbefore, firstPrompt_block, hblank, fun hkeeps => ?_⟩
  have hsame := hkeeps 0 3 hbefore (by decide +kernel) (hscrolled ▸ Nat.le_refl 0)
  rw [hscrolled, hblank, firstPrompt_block] at hsame
  exact absurd (congrFun (congrFun hsame 1) 0) (by decide +kernel)

end Feudos
